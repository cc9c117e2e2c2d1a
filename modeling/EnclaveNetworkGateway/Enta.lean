import EnclaveNetworkGateway.Entg

/-!
# ENTA

`run` joins `exchange_with_entg` and `exchange_with_tun`. Each of them selects over
two loops and returns when the first one ends; two channels of packets connect
them. Returning drops what the function owns: the stream to the ENTG with the
receiver of the outbound channel, or the TUN device with that of the inbound one.
-/
namespace EnclaveNetworkGateway

open FrameCodec

/-- `mpsc::channel(128)`. -/
def channelSize : ℕ := 128

/-- `to_entg`: at `outbound_rx.recv()`, or with the rest of the frame of a packet in
the write buffer of the sink. -/
inductive ToEntg where
  | recv
  | send (p : ENPacket) (buf : Bytes)
  deriving DecidableEq, Repr

/-- `from_entg`: at `split_stream.next()`, or at `inbound_tx.send(p)`. -/
inductive FromEntg where
  | next (r : FramedRead)
  | put (r : FramedRead) (p : ENPacket)
  deriving DecidableEq, Repr

/-- `to_tun`: at `inbound_rx.recv()`, or with a packet in the sink of the device. -/
inductive ToTun where
  | recv
  | send (p : ENPacket)
  deriving DecidableEq, Repr

/-- `from_tun`: at `split_stream.next()`, there behind an error of the device, or at
`outbound_tx.send(p)`. -/
inductive FromTun where
  | next
  | failed
  | put (p : ENPacket)
  deriving DecidableEq, Repr

structure WithEntg where
  toEntg : ToEntg
  fromEntg : FromEntg
  deriving DecidableEq, Repr

structure WithTun where
  toTun : ToTun
  fromTun : FromTun
  deriving DecidableEq, Repr

/-- Why `exchange_with_entg` returned: the four `break`s of its loops, or it was
dropped with `run`. -/
inductive EntgExit where
  | sendFailed
  | outboundClosed
  | capturersClosed
  | entgClosed
  | cancelled
  deriving DecidableEq, Repr

/-- Why `exchange_with_tun` returned. -/
inductive TunExit where
  | sendFailed
  | inboundClosed
  | outboundClosed
  | tunEnded
  | cancelled
  deriving DecidableEq, Repr

inductive Task (α ε : Type) where
  | running (a : α)
  | returned (x : ε)
  deriving DecidableEq, Repr

namespace Task

variable {α ε : Type}

def isRunning : Task α ε → Bool
  | running _ => true
  | returned _ => false

/-- Dropping a task that has not returned. -/
def cancel (t : Task α ε) (x : ε) : Task α ε :=
  match t with
  | running _ => returned x
  | returned y => returned y

end Task

/-- `main`: inside `run`, at `clean_up`, or unwound by a panic. -/
inductive MainState where
  | run
  | cleanUp
  | panicked
  deriving DecidableEq, Repr

/-- The packets that passed each stage so far, and how many errors `from_entg` logged. -/
structure PacketLog where
  captured : List ENPacket
  queued : List ENPacket
  sent : List ENPacket
  received : List ENPacket
  handed : List ENPacket
  written : List ENPacket
  errors : ℕ
  deriving DecidableEq, Repr

structure Enta where
  main : MainState
  withEntg : Task WithEntg EntgExit
  withTun : Task WithTun TunExit
  outbound : Fifo ENPacket channelSize
  inbound : Fifo ENPacket channelSize
  log : PacketLog
  deriving DecidableEq

/-- A step of one of the four loops, or of `run` itself. -/
inductive EntaAct where
  | recvOutbound
  | sendEntg (op : StreamOp)
  | pollEntg
  | readEntg (op : StreamOp)
  | putInbound
  | recvInbound
  | tunWrite
  | tunWriteErr
  | capture (p : ENPacket)
  | tunReadErr
  | pollTun
  | tunEnd
  | putOutbound
  | joined
  | ctrlC
  deriving DecidableEq, Repr

/-- Which packets the codec of the TUN device takes. It refuses a packet whose first byte says
neither IPv4 nor IPv6, and looks at nothing else. -/
abbrev TunCodec := ENPacket → Bool

/-- The IP version is in the upper half of the first byte. -/
def ipCodec : TunCodec
  | b :: _ => b.toNat / 16 = 4 ∨ b.toNat / 16 = 6
  | [] => false

example : ipCodec [69] = true ∧ ipCodec [1] = false := by decide

namespace Enta

def new : Enta where
  main := .run
  withEntg := .running ⟨.recv, .next .new⟩
  withTun := .running ⟨.recv, .next⟩
  outbound := .empty
  inbound := .empty
  log := ⟨[], [], [], [], [], [], 0⟩

/-- `exchange_with_entg` returns; the packets in the outbound channel are dropped with
its receiver. -/
def leaveEntg (e : Enta) (x : EntgExit) : Enta :=
  { e with withEntg := .returned x, outbound := .empty }

def leaveTun (e : Enta) (x : TunExit) : Enta :=
  { e with withTun := .returned x, inbound := .empty }

/-- `run` is dropped or unwound with everything in it. -/
def stop (e : Enta) (m : MainState) : Enta :=
  { e with
    main := m
    withEntg := e.withEntg.cancel .cancelled
    withTun := e.withTun.cancel .cancelled
    outbound := .empty
    inbound := .empty }

/-! ## The loop `to_entg` -/

/-- A packet that the encoder refuses fails the send. -/
def recvOutbound (e : Enta) : Option Enta :=
  match e.withEntg with
  | .running ⟨.recv, f⟩ =>
    match e.outbound.items with
    | p :: _ =>
      match encode p with
      | some frame => some { e with
          withEntg := .running ⟨.send p frame, f⟩
          outbound := e.outbound.drop 1 }
      | none => some (e.leaveEntg .sendFailed)
    | [] => if e.withTun.isRunning then none else some (e.leaveEntg .outboundClosed)
  | _ => none

/-- One write of `split_sink.send`; the send is complete with the last byte. -/
def sendEntg (e : Enta) (op : StreamOp) : Option Enta :=
  match e.withEntg, op with
  | .running ⟨.send p buf, f⟩, .write offer n =>
    if offer = buf ∧ 0 < n ∧ n ≤ buf.length then
      if n < buf.length then
        some { e with withEntg := .running ⟨.send p (buf.drop n), f⟩ }
      else
        some { e with
          withEntg := .running ⟨.recv, f⟩
          log := { e.log with sent := e.log.sent ++ [p] } }
    else none
  | .running ⟨.send _ _, _⟩, .writeErr => some (e.leaveEntg .sendFailed)
  | _, _ => none

/-! ## The loop `from_entg` -/

/-- What the loop does with the outcome of a pass: an item is sent on, an error is
logged and the loop goes on. -/
def onPolled (e : Enta) (t : ToEntg) : Polled × FramedRead → Enta
  | (.again, r) => { e with withEntg := .running ⟨t, .next r⟩ }
  | (.ready (some (.ok p)), r) => { e with withEntg := .running ⟨t, .put r p⟩ }
  | (.ready (some (.error _)), r) => { e with
      withEntg := .running ⟨t, .next r⟩
      log := { e.log with errors := e.log.errors + 1 } }
  | (.ready none, _) => e.leaveEntg .entgClosed

/-- A pass of `split_stream.next()` that does not read. -/
def pollEntg (e : Enta) : Option Enta :=
  match e.withEntg with
  | .running ⟨t, .next r⟩ => if r.busy then some (e.onPolled t r.poll) else none
  | _ => none

/-- A pass that reads from the stream. -/
def readEntg (e : Enta) (op : StreamOp) : Option Enta :=
  match e.withEntg with
  | .running ⟨t, .next r⟩ =>
    if r.busy then none
    else match op with
      | .read bs => if bs ≠ [] then some (e.onPolled t (r.afterRead bs)) else none
      | .readEof => some (e.onPolled t (r.afterRead []))
      | .readErr => some (e.onPolled t r.failRead)
      | _ => none
  | _ => none

/-- `inbound_tx.send`: waits for room, fails once the receiver is dropped. -/
def putInbound (e : Enta) : Option Enta :=
  match e.withEntg with
  | .running ⟨t, .put r p⟩ =>
    if e.withTun.isRunning then
      (e.inbound.append [p]).map fun q => { e with
        withEntg := .running ⟨t, .next r⟩
        inbound := q
        log := { e.log with received := e.log.received ++ [p] } }
    else some (e.leaveEntg .capturersClosed)
  | _ => none

/-! ## The loop `to_tun` -/

/-- `TunPacket::new` looks at the first byte of the packet and panics without one. -/
def recvInbound (e : Enta) : Option Enta :=
  match e.withTun with
  | .running ⟨.recv, f⟩ =>
    match e.inbound.items with
    | [] :: _ => some (e.stop .panicked)
    | p :: _ => some { e with
        withTun := .running ⟨.send p, f⟩
        inbound := e.inbound.drop 1
        log := { e.log with handed := e.log.handed ++ [p] } }
    | [] => if e.withEntg.isRunning then none else some (e.leaveTun .inboundClosed)
  | _ => none

/-- A packet that the codec refuses fails the send. -/
def tunWrite (codec : TunCodec) (e : Enta) : Option Enta :=
  match e.withTun with
  | .running ⟨.send p, f⟩ =>
    if codec p then
      some { e with
        withTun := .running ⟨.recv, f⟩
        log := { e.log with written := e.log.written ++ [p] } }
    else some (e.leaveTun .sendFailed)
  | _ => none

def tunWriteErr (e : Enta) : Option Enta :=
  match e.withTun with
  | .running ⟨.send _, _⟩ => some (e.leaveTun .sendFailed)
  | _ => none

/-! ## The loop `from_tun` -/

def capture (e : Enta) (p : ENPacket) : Option Enta :=
  match e.withTun with
  | .running ⟨t, .next⟩ => some { e with
      withTun := .running ⟨t, .put p⟩
      log := { e.log with captured := e.log.captured ++ [p] } }
  | _ => none

/-- A read error of the device is logged only, but the stream yields nothing behind it. -/
def tunReadErr (e : Enta) : Option Enta :=
  match e.withTun with
  | .running ⟨t, .next⟩ => some { e with withTun := .running ⟨t, .failed⟩ }
  | _ => none

def pollTun (e : Enta) : Option Enta :=
  match e.withTun with
  | .running ⟨_, .failed⟩ => some (e.leaveTun .tunEnded)
  | _ => none

def tunEnd (e : Enta) : Option Enta :=
  match e.withTun with
  | .running ⟨_, .next⟩ => some (e.leaveTun .tunEnded)
  | _ => none

def putOutbound (e : Enta) : Option Enta :=
  match e.withTun with
  | .running ⟨t, .put p⟩ =>
    if e.withEntg.isRunning then
      (e.outbound.append [p]).map fun q => { e with
        withTun := .running ⟨t, .next⟩
        outbound := q
        log := { e.log with queued := e.log.queued ++ [p] } }
    else some (e.leaveTun .outboundClosed)
  | _ => none

/-- `join!` is ready when both functions have returned. -/
def joined (e : Enta) : Option Enta :=
  if e.withEntg.isRunning ∨ e.withTun.isRunning then none else some { e with main := .cleanUp }

def step (codec : TunCodec) (e : Enta) (a : EntaAct) : Option Enta :=
  if e.main ≠ .run then none
  else match a with
    | .recvOutbound => e.recvOutbound
    | .sendEntg op => e.sendEntg op
    | .pollEntg => e.pollEntg
    | .readEntg op => e.readEntg op
    | .putInbound => e.putInbound
    | .recvInbound => e.recvInbound
    | .tunWrite => e.tunWrite codec
    | .tunWriteErr => e.tunWriteErr
    | .capture p => e.capture p
    | .tunReadErr => e.tunReadErr
    | .pollTun => e.pollTun
    | .tunEnd => e.tunEnd
    | .putOutbound => e.putOutbound
    | .joined => e.joined
    | .ctrlC => some (e.stop .cleanUp)

end Enta

end EnclaveNetworkGateway
