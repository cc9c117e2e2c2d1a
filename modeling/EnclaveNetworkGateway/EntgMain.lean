import EnclaveNetworkGateway.Entg
import EnclaveNetworkGateway.GetStreamInvariant

/-!
# The main of ENTG

`main` polls the futures of both streams in a loop around one `select!`, forwards between the
streams, and drops what it has. The runtime then waits for the blocking tasks.
-/
namespace EnclaveNetworkGateway

structure EntgArgs where
  entgConnect : Option String
  entgListen : UInt16
  entaListen : UInt16
  entgRatsTls : Bool
  entaRatsTls : Bool
  deriving DecidableEq, Repr

/-- `task1` gets the stream of the ENTA, on the left, and `task2` that of the peer ENTG. -/
def EntgArgs.call (args : EntgArgs) : Side → GetStream
  | .left => getEntaStream args.entaListen args.entaRatsTls
  | .right => getEntgStream args.entgConnect args.entgListen args.entgRatsTls

/-- What `?` returns from `main`. -/
inductive EntgError where
  | stream (d : Side) (e : StreamError)
  | copy (d : Side)
  deriving DecidableEq, Repr

/-- Where `main` stands: at the condition of the `while`, between two polls of the `select!`,
inside the poll of a future, behind the loop, forwarding, dropping its variables, waiting for
the blocking tasks, and past its end. -/
inductive EntgStage where
  | loop
  | select (enabled : Pair Bool)
  | poll (d : Side) (enabled : Pair Bool)
  | unwrap
  | forward (g : Entg)
  | leave (r : Except EntgError Unit)
  | shutdown (r : Except EntgError Unit)
  | exited (r : Except EntgError Unit)
  | panicked
  deriving DecidableEq

structure EntgMain where
  stage : EntgStage
  tasks : Pair StreamTask
  deriving DecidableEq

inductive EntgAct where
  | loop
  | poll (d : Side)
  | advance (ev : PollEvent)
  | pend
  | unwrap
  | copy (d : Side) (op : CopyOp)
  | drop (d : Side)
  | shutdown
  | background (d : Side) (a : SessionAct)
  | exit
  deriving DecidableEq, Repr

namespace EntgMain

def new : EntgMain := ⟨.loop, .both .new⟩

/-- The condition of the `while`, and the entry into the `select!`, which panics if all of its
branches are disabled. -/
def loop (m : EntgMain) : Option EntgMain :=
  match m.stage with
  | .loop =>
    let enabled : Pair Bool := ⟨m.tasks.left.stream.isNone, m.tasks.right.stream.isNone⟩
    if enabled.left || enabled.right then
      some { m with
        stage := if !enabled.left && !enabled.right then .panicked else .select enabled }
    else some { m with stage := .unwrap }
  | _ => none

/-- A branch is polled; a future that has ended panics. -/
def poll (m : EntgMain) (d : Side) : Option EntgMain :=
  match m.stage with
  | .select enabled =>
    if enabled.get d then some { m with
      stage := if (m.tasks.get d).state = .finished then .panicked else .poll d enabled }
    else none
  | _ => none

/-- A value ends the `select!`, an error the loop. -/
def onProgress (m : EntgMain) (d : Side) (enabled : Pair Bool) (t : StreamTask) :
    Progress → EntgMain
  | .going => ⟨.poll d enabled, m.tasks.set d t⟩
  | .ready (.ok st) => ⟨.loop, m.tasks.set d (t.store st)⟩
  | .ready (.error e) => ⟨.leave (.error (.stream d e)), m.tasks.set d t⟩
  | .panicked => ⟨.panicked, m.tasks.set d t⟩

def advance (args : EntgArgs) (m : EntgMain) (ev : PollEvent) : Option EntgMain :=
  match m.stage with
  | .poll d enabled => ((m.tasks.get d).advance (args.call d) ev).map fun r =>
    m.onProgress d enabled r.1 r.2
  | _ => none

def pend (m : EntgMain) : Option EntgMain :=
  match m.stage with
  | .poll d enabled =>
    if (m.tasks.get d).waits then some { m with stage := .select enabled } else none
  | _ => none

/-- Both `unwrap`s, and the start of the copy loops. -/
def unwrap (m : EntgMain) : Option EntgMain :=
  match m.stage with
  | .unwrap => some { m with
      stage :=
        match m.tasks.left.stream, m.tasks.right.stream with
        | some _, some _ => .forward .new
        | _, _ => .panicked }
  | _ => none

def copy (m : EntgMain) (d : Side) (op : CopyOp) : Option EntgMain :=
  match m.stage with
  | .forward g => (g.step (d, op)).map fun g' => { m with
      stage :=
        match g'.returned with
        | none => .forward g'
        | some (_, true) => .leave (.ok ())
        | some (e, false) => .leave (.error (.copy e)) }
  | _ => none

def drop (m : EntgMain) (d : Side) : Option EntgMain :=
  match m.stage with
  | .leave _ => (m.tasks.get d).drop.map fun t => { m with tasks := m.tasks.set d t }
  | _ => none

def shutdown (m : EntgMain) : Option EntgMain :=
  match m.stage with
  | .leave r =>
    if m.tasks.left.state = .dropped ∧ m.tasks.right.state = .dropped then
      some { m with stage := .shutdown r }
    else none
  | _ => none

/-- The runtime shuts down. -/
def closing (m : EntgMain) : Bool :=
  match m.stage with
  | .shutdown _ => true
  | _ => false

/-- The process has ended. -/
def ended (m : EntgMain) : Bool :=
  match m.stage with
  | .exited _ | .panicked => true
  | _ => false

def background (m : EntgMain) (d : Side) (a : SessionAct) : Option EntgMain :=
  if m.ended || a.isDiscard && !m.closing then none
  else ((m.tasks.get d).background a).map fun t => { m with tasks := m.tasks.set d t }

/-- The process ends once the threads of the blocking tasks are done. -/
def exit (m : EntgMain) : Option EntgMain :=
  match m.stage with
  | .shutdown r =>
    if m.tasks.left.session.all Session.settled ∧ m.tasks.right.session.all Session.settled then
      some { m with stage := .exited r }
    else none
  | _ => none

def step (args : EntgArgs) (m : EntgMain) : EntgAct → Option EntgMain
  | .loop => m.loop
  | .poll d => m.poll d
  | .advance ev => m.advance args ev
  | .pend => m.pend
  | .unwrap => m.unwrap
  | .copy d op => m.copy d op
  | .drop d => m.drop d
  | .shutdown => m.shutdown
  | .background d a => m.background d a
  | .exit => m.exit

end EntgMain

end EnclaveNetworkGateway
