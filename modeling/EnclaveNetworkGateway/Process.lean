import EnclaveNetworkGateway.Enta
import EnclaveNetworkGateway.Netfilter
import EnclaveNetworkGateway.Transition

/-!
# The process of ENTA

`main` command by command: the connection, the TUN device, the scripts of `setup_netfilter`,
the forwarding, and the scripts of `clean_up`. The `select!` of `run` listens for SIGINT from
its first poll of `ctrl_c` on; before that the signal kills the process.
-/
namespace EnclaveNetworkGateway

open Netfilter (NetCommand NetOutcome Route RunFate Tables)
open Shell (Fate Outcome Running)

/-- The scripts of `setup_netfilter` and of `clean_up`. -/
inductive Script where
  | setupCapture
  | setupReplay
  | cleanUpCapture
  | cleanUpReplay
  deriving DecidableEq, Repr

/-- Where `main` is: at `TcpStream::connect`, at `create_as_async`, about to start a shell,
at `cmd.output()`, in the `select!`, or past `clean_up`. -/
inductive Stage where
  | connect
  | createTun
  | script (k : Script)
  | shell (k : Script) (r : Running NetCommand)
  | forward (e : Enta)
  | done
  deriving DecidableEq

namespace Script

def isSetup : Script → Bool
  | setupCapture | setupReplay => true
  | cleanUpCapture | cleanUpReplay => false

/-- Only the scripts of `setup_netfilter` run under `-e`. -/
def errexit (k : Script) : Bool := k.isSetup

/-- The commands, if the option is given. -/
def commands (capture replay : Option UInt16) : Script → Option (List NetCommand)
  | setupCapture => capture.map Netfilter.setupCapture
  | setupReplay => replay.map Netfilter.setupReplay
  | cleanUpCapture => capture.map Netfilter.cleanUpCapture
  | cleanUpReplay => replay.map Netfilter.cleanUpReplay

def fate (f : RunFate) : Script → Fate NetCommand
  | setupCapture => f.setup.capture
  | setupReplay => f.setup.replay
  | cleanUpCapture => f.cleanUp.capture
  | cleanUpReplay => f.cleanUp.replay

/-- What follows the success or the failure of a script: the next one, the forwarding, or
`clean_up`, whose error is only logged. -/
def next : Script → Bool → Stage
  | setupCapture, true => .script setupReplay
  | setupReplay, true => .forward .new
  | setupCapture, false | setupReplay, false => .script cleanUpCapture
  | cleanUpCapture, true => .script cleanUpReplay
  | cleanUpCapture, false | cleanUpReplay, _ => .done

end Script

/-- How `main` ends: by a signal, by a panic, or with its return. -/
inductive Ending where
  | killed
  | panicked
  | exited
  deriving DecidableEq, Repr

/-- The process, with what its commands make of the tables of the host. `listening` is set once
`ctrl_c` has been polled, `signalled` once it has a SIGINT to report, and `setupStarted` once the
first shell of `setup_netfilter` has started. -/
structure Process where
  stage : Stage
  tables : Tables
  listening : Bool
  signalled : Bool
  setupStarted : Bool
  ending : Option Ending
  deriving DecidableEq

/-- `connect` is the answer of `connect_to_entg`, and `exit` the return of `main`. -/
inductive ProcessAct where
  | connect
  | createTun
  | start
  | command
  | output
  | pollCtrlC
  | enta (a : EntaAct)
  | exit
  | sigint
  deriving DecidableEq, Repr

namespace Process

def new (t : Tables) : Process := ⟨.connect, t, false, false, false, none⟩

section Steps

variable (codec : TunCodec) (capture replay : Option UInt16) (f : RunFate)

/-- The next command of the shell at work. The shell is a process of its own and goes on
when ENTA has ended. -/
def command (p : Process) : Option Process :=
  match p.stage with
  | .shell k r => (r.next NetCommand.exec k.errexit (k.fate f).works p.tables).map fun (r', t) =>
    { p with stage := .shell k r', tables := t }
  | _ => none

/-- A shell is started, if there is anything for it to do. -/
def start (p : Process) : Option Process :=
  match p.stage with
  | .script k => some <|
    match k.commands capture replay with
    | none => { p with stage := k.next true }
    | some cs =>
      if (k.fate f).starts then
        { p with stage := .shell k ⟨cs, true⟩, setupStarted := p.setupStarted || k.isSetup }
      else { p with stage := k.next false }
  | _ => none

/-- A step of the forwarding. The branch of `ctrl_c` is ready only with a signal. -/
def enta (p : Process) (a : EntaAct) : Option Process :=
  match p.stage with
  | .forward e =>
    if a = .ctrlC ∧ p.signalled = false then none
    else (e.step codec a).map fun e' =>
      match e'.main with
      | .run => { p with stage := .forward e' }
      | .cleanUp => { p with stage := .script .cleanUpCapture }
      | .panicked => { p with ending := some .panicked }
  | _ => none

/-- A step of the process itself. -/
def act (p : Process) (a : ProcessAct) : Option Process :=
  match a, p.stage with
  | .connect, .connect =>
    some { p with stage := if f.connects then .createTun else .script .cleanUpCapture }
  | .createTun, .createTun => some { p with
      stage := if f.tunCreated then .script .setupCapture else .script .cleanUpCapture }
  | .start, _ => p.start capture replay f
  | .output, .shell k ⟨[], ok⟩ => some { p with stage := k.next ok }
  -- the branches are polled in a random order: `ctrl_c` first, or after a part of the forwarding
  | .pollCtrlC, .forward _ => some { p with listening := true }
  | .enta a, _ => p.enta codec a
  | .exit, .done => some { p with ending := some .exited }
  | .sigint, _ =>
    some (if p.listening then { p with signalled := true } else { p with ending := some .killed })
  | _, _ => none

def step (p : Process) (a : ProcessAct) : Option Process :=
  match a with
  | .command => p.command f
  | a => if p.ending.isSome then none else p.act codec capture replay f a

end Steps

/-- The TUN device is there from `create_as_async` to the end of `exchange_with_tun`. -/
def deviceUp (p : Process) : Bool :=
  p.ending.isNone && match p.stage with
    | .script k | .shell k _ => k.isSetup
    | .forward e => e.withTun.isRunning
    | .connect | .createTun | .done => false

/-- The tables of a host that had `t` before. The kernel adds the routes `device` as long as the
TUN device is up, and with it the routes of table 8 that lead there are gone. -/
def hostTables (device : List Route) (t : Tables) (p : Process) : Tables :=
  { p.tables with
    routes := if p.deviceUp then p.tables.routes ++ device
      else p.tables.routes.filter (· ∈ t.routes) }

/-! ## What a step can do -/

/-- One constructor for each thing that a step of the process can do, with its guards. -/
inductive Move (codec : TunCodec) (capture replay : Option UInt16) (f : RunFate) (p : Process) :
    ProcessAct → Process → Prop where
  | connect (hstage : p.stage = .connect) :
      Move codec capture replay f p .connect
        { p with stage := if f.connects then .createTun else .script .cleanUpCapture }
  | createTun (hstage : p.stage = .createTun) :
      Move codec capture replay f p .createTun { p with
        stage := if f.tunCreated then .script .setupCapture else .script .cleanUpCapture }
  | skip {k : Script} (hstage : p.stage = .script k) (hcs : k.commands capture replay = none) :
      Move codec capture replay f p .start { p with stage := k.next true }
  | start {k : Script} {cs : List NetCommand} (hstage : p.stage = .script k)
      (hcs : k.commands capture replay = some cs) (hstarts : (k.fate f).starts = true) :
      Move codec capture replay f p .start
        { p with stage := .shell k ⟨cs, true⟩, setupStarted := p.setupStarted || k.isSetup }
  | noStart {k : Script} {cs : List NetCommand} (hstage : p.stage = .script k)
      (hcs : k.commands capture replay = some cs) (hstarts : (k.fate f).starts = false) :
      Move codec capture replay f p .start { p with stage := k.next false }
  | command {k : Script} {r r' : Running NetCommand} {t : Tables} (hstage : p.stage = .shell k r)
      (hnext : r.next NetCommand.exec k.errexit (k.fate f).works p.tables = some (r', t)) :
      Move codec capture replay f p .command { p with stage := .shell k r', tables := t }
  | output {k : Script} {ok : Bool} (hstage : p.stage = .shell k ⟨[], ok⟩) :
      Move codec capture replay f p .output { p with stage := k.next ok }
  | pollCtrlC {e : Enta} (hstage : p.stage = .forward e) :
      Move codec capture replay f p .pollCtrlC { p with listening := true }
  | forward {e e' : Enta} {a : EntaAct} (hstage : p.stage = .forward e)
      (hsignal : a = .ctrlC → p.signalled = true) (hstep : e.step codec a = some e')
      (hmain : e'.main = .run) :
      Move codec capture replay f p (.enta a) { p with stage := .forward e' }
  | leave {e e' : Enta} {a : EntaAct} (hstage : p.stage = .forward e)
      (hsignal : a = .ctrlC → p.signalled = true) (hstep : e.step codec a = some e')
      (hmain : e'.main = .cleanUp) :
      Move codec capture replay f p (.enta a) { p with stage := .script .cleanUpCapture }
  | panic {e e' : Enta} {a : EntaAct} (hstage : p.stage = .forward e)
      (hsignal : a = .ctrlC → p.signalled = true) (hstep : e.step codec a = some e')
      (hmain : e'.main = .panicked) :
      Move codec capture replay f p (.enta a) { p with ending := some .panicked }
  | exit (hstage : p.stage = .done) :
      Move codec capture replay f p .exit { p with ending := some .exited }
  | report (hl : p.listening = true) :
      Move codec capture replay f p .sigint { p with signalled := true }
  | kill (hl : p.listening = false) :
      Move codec capture replay f p .sigint { p with ending := some .killed }

section Move

variable {codec : TunCodec} {capture replay : Option UInt16} {f : RunFate} {p q : Process}
  {a : ProcessAct}

theorem move_of_command (h : p.command f = some q) :
    Move codec capture replay f p .command q := by
  unfold command at h
  split at h
  · rename_i k r hstage
    obtain ⟨⟨r', t⟩, hnext, rfl⟩ := Option.map_eq_some_iff.mp h
    exact .command hstage hnext
  · simp at h

theorem move_of_start (h : p.start capture replay f = some q) :
    Move codec capture replay f p .start q := by
  unfold start at h
  split at h
  · rename_i k hstage
    obtain rfl := Option.some.inj h
    split
    · rename_i hcs
      exact .skip hstage hcs
    · rename_i cs hcs
      split_ifs with hstarts
      · exact .start hstage hcs hstarts
      · exact .noStart hstage hcs (by simpa using hstarts)
  · simp at h

theorem move_of_enta {a : EntaAct} (h : p.enta codec a = some q) :
    Move codec capture replay f p (.enta a) q := by
  unfold enta at h
  split at h
  · rename_i e hstage
    split_ifs at h with hwait
    obtain ⟨e', hstep, rfl⟩ := Option.map_eq_some_iff.mp h
    have hsignal : a = .ctrlC → p.signalled = true := fun ha => by simpa [ha] using hwait
    cases hmain : e'.main with
    | run => exact .forward hstage hsignal hstep hmain
    | cleanUp => exact .leave hstage hsignal hstep hmain
    | panicked => exact .panic hstage hsignal hstep hmain
  · simp at h

theorem move_of_act (h : p.act codec capture replay f a = some q) :
    Move codec capture replay f p a q := by
  unfold act at h
  split at h
  case h_1 hstage =>
    obtain rfl := Option.some.inj h
    exact .connect hstage
  case h_2 hstage =>
    obtain rfl := Option.some.inj h
    exact .createTun hstage
  case h_3 => exact move_of_start h
  case h_4 hstage =>
    obtain rfl := Option.some.inj h
    exact .output hstage
  case h_5 hstage =>
    obtain rfl := Option.some.inj h
    exact .pollCtrlC hstage
  case h_6 => exact move_of_enta h
  case h_7 hstage =>
    obtain rfl := Option.some.inj h
    exact .exit hstage
  case h_8 =>
    obtain rfl := Option.some.inj h
    split_ifs with hl
    · exact .report hl
    · exact .kill (by simpa using hl)
  case h_9 => simp at h

/-- Once the process has ended, only a shell can go on. -/
theorem move_of_step (h : p.step codec capture replay f a = some q) :
    (p.ending = none ∨ a = .command) ∧ Move codec capture replay f p a q := by
  cases a with
  | command => exact ⟨.inr rfl, move_of_command h⟩
  | _ =>
    unfold step at h
    split_ifs at h with hend
    exact ⟨.inl (by simpa using hend), move_of_act h⟩

end Move

end Process

end EnclaveNetworkGateway
