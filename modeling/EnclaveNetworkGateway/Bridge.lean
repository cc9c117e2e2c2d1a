import EnclaveNetworkGateway.DuplexPipe
import EnclaveNetworkGateway.Sides
import EnclaveNetworkGateway.Fifo

/-!
# The rats-tls bridge

Two sessions of `RatsTls::negotiate_async` connected by a socket. Each end has the
returned `DuplexStream`, its counterpart split between two blocking tasks, the
writer task that sends what the application wrote and the reader task that
delivers what the peer sent, and one half of the socket. A step is one blocking
call of one task or one operation of the application on its stream.
-/
namespace EnclaveNetworkGateway

/-- The `vec![0; 1024]` that a task reuses, with the offsets of the bytes it is
still working on: `w_off..r_len` in the writer. -/
structure TaskBuf where
  buf : Bytes
  lo : ℕ
  hi : ℕ
  length_eq : buf.length = duplexSize
  hi_le : hi ≤ duplexSize
  deriving DecidableEq

namespace TaskBuf

def new : TaskBuf := ⟨List.replicate duplexSize 0, 0, 0, by simp, Nat.zero_le _⟩

/-- `&buf[lo..hi]`. -/
def slice (b : TaskBuf) : Bytes := (b.buf.take b.hi).drop b.lo

/-- A read that stores `bs` at the front; the rest of the buffer keeps its old bytes. -/
def fill (b : TaskBuf) (bs : Bytes) (h : bs.length ≤ duplexSize) : TaskBuf :=
  ⟨bs ++ b.buf.drop bs.length, 0, bs.length, by
    have := b.length_eq
    simp only [List.length_append, List.length_drop]
    omega, h⟩

/-- `w_off += n`. -/
def advance (b : TaskBuf) (n : ℕ) : TaskBuf := { b with lo := b.lo + n }

/-- No byte that was in the buffer before the read is offered. -/
@[simp] theorem slice_fill (b : TaskBuf) (bs : Bytes) (h : bs.length ≤ duplexSize) :
    (b.fill bs h).slice = bs := by
  simp [slice, fill]

@[simp] theorem slice_advance (b : TaskBuf) (n : ℕ) : (b.advance n).slice = b.slice.drop n := by
  simp [slice, advance, List.drop_drop]

end TaskBuf

namespace Bridge

/-- How the application holds the returned `DuplexStream`. -/
inductive AppState where
  | live
  | shut
  | dropped
  deriving DecidableEq, Repr

/-- The writer task: at `rh.read`, in the inner loop with bytes left to transmit,
past the loops, past `shutdown(Shutdown::Write)`, and ended with its captures
dropped. `failed` records that a transmit returned an error. -/
inductive WriterTask where
  | read (b : TaskBuf)
  | transmit (b : TaskBuf)
  | left (failed : Bool)
  | shut (failed : Bool)
  | ended (failed : Bool)
  deriving DecidableEq

/-- The reader task: at `receive`, in `write_all`, past the loop, past
`shutdown(Shutdown::Read)`, and ended with `ShutdownOnDrop` dropped. -/
inductive ReaderTask where
  | receive (b : TaskBuf)
  | writeAll (b : TaskBuf)
  | left
  | shut
  | ended
  deriving DecidableEq

namespace WriterTask

/-- The task is still in its loops. -/
def looping : WriterTask → Bool
  | read _ | transmit _ => true
  | _ => false

/-- The write half of the socket has been shut down. -/
def hasShut : WriterTask → Bool
  | shut _ | ended _ => true
  | _ => false

def hasEnded : WriterTask → Bool
  | ended _ => true
  | _ => false

/-- The bytes read from the pipe and not yet accepted by the library. -/
def conduit : WriterTask → Conduit UInt8
  | read _ => 1
  | transmit b => .flow b.slice
  | _ => .cut []

@[simp] theorem conduit_live (w : WriterTask) : w.conduit.live = w.looping := by
  cases w <;> rfl

theorem hasEnded_of_looping {w : WriterTask} (h : w.looping = true) : w.hasEnded = false := by
  cases w <;> simp [looping, hasEnded] at h ⊢

end WriterTask

namespace ReaderTask

def looping : ReaderTask → Bool
  | receive _ | writeAll _ => true
  | _ => false

def hasEnded : ReaderTask → Bool
  | ended => true
  | _ => false

/-- The bytes received and not yet written to the pipe. -/
def conduit : ReaderTask → Conduit UInt8
  | receive _ => 1
  | writeAll b => .flow b.slice
  | _ => .cut []

@[simp] theorem conduit_live (r : ReaderTask) : r.conduit.live = r.looping := by
  cases r <;> rfl

theorem hasEnded_of_looping {r : ReaderTask} (h : r.looping = true) : r.hasEnded = false := by
  cases r <;> simp [looping, hasEnded] at h ⊢

end ReaderTask

/-- One end: `out` is the pipe the application writes, `inp` the one it reads. -/
structure Endpoint where
  app : AppState
  out : DuplexPipe
  inp : DuplexPipe
  writer : WriterTask
  reader : ReaderTask
  deriving DecidableEq

namespace Endpoint

/-- Right after the two tasks were spawned. -/
def new : Endpoint := ⟨.live, .new, .new, .read .new, .receive .new⟩

/-- The socket is closed with the last holder of the session. -/
def socketClosed (e : Endpoint) : Bool := e.writer.hasEnded && e.reader.hasEnded

/-- The inner stream `s1` is dropped, and closes both pipes, when both of its
halves are gone. -/
def dropHalf (e : Endpoint) : Endpoint :=
  if e.socketClosed then { e with out := e.out.close, inp := e.inp.close } else e

/-- `poll_shutdown` of the application. -/
def shutdown (e : Endpoint) : Endpoint :=
  if e.app = .live then { e with app := .shut, out := e.out.close } else e

/-- The application drops its `DuplexStream`. -/
def drop (e : Endpoint) : Endpoint :=
  { e with app := .dropped, out := e.out.close, inp := e.inp.close }

end Endpoint

end Bridge

open Bridge in
/-- Two bridged sessions. `sock` is indexed by the sending end. -/
structure Bridge where
  ends : Pair Endpoint
  sock : Pair Socket
  deriving DecidableEq

namespace Bridge

/-- A fresh bridge over sockets that buffer `cap` bytes in each direction. -/
def new (cap : ℕ) (h : 0 < cap) : Bridge := ⟨.both .new, .both (.empty cap h)⟩

/-- What the writer task does next: the read, a transmit that accepts `w` bytes,
fails because the peer has closed its socket or fails for another reason, and the
two steps after the loops. -/
inductive WriterEvent where
  | read
  | transmit (w : ℕ)
  | transmitClosed
  | transmitErr
  | shutdown
  | drop
  deriving DecidableEq, Repr

/-- What the reader task does next: a receive of `r` bytes, at the end of the
stream or failing for another reason, one write of `write_all`, and the two steps
after the loop. -/
inductive ReaderEvent where
  | receive (r : ℕ)
  | receiveEnd
  | receiveErr
  | write
  | shutdown
  | drop
  deriving DecidableEq, Repr

def setEnd (b : Bridge) (s : Side) (e : Endpoint) : Bridge := { b with ends := b.ends.set s e }

def setSock (b : Bridge) (s : Side) (q : Socket) : Bridge :=
  { b with sock := b.sock.set s q }

/-- A step of the writer task at end `s`. -/
def writerStep (b : Bridge) (s : Side) (ev : WriterEvent) : Option Bridge :=
  let e := b.ends.get s
  match e.writer, ev with
  | .read buf, .read =>
    match e.out.pollRead duplexSize with
    | .pending => none
    | .ready (bs, out) =>
      -- `r_len == 0`: no more data to read
      if bs = [] then some (b.setEnd s { e with writer := .left false })
      else if h : bs.length ≤ duplexSize then
        some (b.setEnd s { e with out := out, writer := .transmit (buf.fill bs h) })
      else none
  | .transmit buf, .transmit w =>
    if w ≤ buf.slice.length then
      ((b.sock.get s).append (buf.slice.take w)).map fun q =>
        (b.setSock s q).setEnd s
          { e with writer := if w < buf.slice.length then .transmit (buf.advance w) else .read buf }
    else none
  | .transmit _, .transmitClosed =>
    if (b.ends.get s.other).socketClosed then
      some (b.setEnd s { e with writer := .left true })
    else none
  | .transmit _, .transmitErr => some (b.setEnd s { e with writer := .left true })
  | .left failed, .shutdown => some (b.setEnd s { e with writer := .shut failed })
  | .shut failed, .drop => some (b.setEnd s (Endpoint.dropHalf { e with writer := .ended failed }))
  | _, _ => none

/-- A step of the reader task at end `s`. -/
def readerStep (b : Bridge) (s : Side) (ev : ReaderEvent) : Option Bridge :=
  let e := b.ends.get s
  match e.reader, ev with
  | .receive buf, .receive r =>
    let q := b.sock.get s.other
    if h : r ≤ duplexSize ∧ r ≤ q.items.length then
      -- `write_all` of no bytes returns at once
      if r = 0 then some b
      else some ((b.setSock s.other (q.drop r)).setEnd s
        { e with reader := .writeAll (buf.fill (q.items.take r) (by simp; omega)) })
    else none
  | .receive _, .receiveEnd =>
    if (b.sock.get s.other).items = [] ∧ (b.ends.get s.other).writer.hasShut then
      some (b.setEnd s { e with reader := .left })
    else none
  | .receive _, .receiveErr => some (b.setEnd s { e with reader := .left })
  | .writeAll buf, .write =>
    match e.inp.pollWrite buf.slice with
    | .pending => none
    | .ready none => some (b.setEnd s { e with reader := .left })
    | .ready (some (n, inp)) =>
      some (b.setEnd s { e with
        inp := inp
        reader := if n < buf.slice.length then .writeAll (buf.advance n) else .receive buf })
  | .left, .shutdown => some (b.setEnd s { e with reader := .shut })
  | .shut, .drop =>
    some (b.setEnd s (Endpoint.dropHalf { e with reader := .ended, inp := e.inp.close }))
  | _, _ => none

end Bridge

/-- An operation of a process on the stream that connects it to its neighbour: a
write of which `n` of the offered bytes are accepted or which fails, a read of
`bs`, of the end of the stream, or a failed read. -/
inductive StreamOp where
  | write (offer : Bytes) (n : ℕ)
  | writeErr
  | read (bs : Bytes)
  | readEof
  | readErr
  deriving DecidableEq, Repr

namespace StreamOp

/-- The bytes the operation puts into the stream. -/
def written : StreamOp → Bytes
  | write offer n => offer.take n
  | _ => []

/-- The bytes the operation takes out of the stream. -/
def taken : StreamOp → Bytes
  | read bs => bs
  | _ => []

end StreamOp

namespace Bridge

/-- A poll of the application on the `DuplexStream` it holds. -/
def appStep (b : Bridge) (s : Side) (op : StreamOp) : Option Bridge :=
  let e := b.ends.get s
  if e.app = .dropped then none
  else match op with
    | .write offer n =>
      match e.out.pollWrite offer with
      | .ready (some (m, out)) =>
        if offer ≠ [] ∧ m = n then some (b.setEnd s { e with out := out }) else none
      | _ => none
    | .writeErr => if e.out.isClosed then some b else none
    | .read bs =>
      match e.inp.pollRead bs.length with
      | .ready (cs, inp) =>
        if bs ≠ [] ∧ cs = bs then some (b.setEnd s { e with inp := inp }) else none
      | .pending => none
    | .readEof =>
      match e.inp.pollRead 1 with
      | .ready ([], _) => some b
      | _ => none
    | .readErr => none

def shutdown (b : Bridge) (s : Side) : Bridge := b.setEnd s (b.ends.get s).shutdown

def drop (b : Bridge) (s : Side) : Bridge := b.setEnd s (b.ends.get s).drop

@[simp] theorem setEnd_ends (b : Bridge) (s : Side) (e : Endpoint) :
    (b.setEnd s e).ends = b.ends.set s e := rfl

@[simp] theorem setEnd_sock (b : Bridge) (s : Side) (e : Endpoint) :
    (b.setEnd s e).sock = b.sock := rfl

@[simp] theorem setSock_ends (b : Bridge) (s : Side) (q : Socket) :
    (b.setSock s q).ends = b.ends := rfl

@[simp] theorem setSock_sock (b : Bridge) (s : Side) (q : Socket) :
    (b.setSock s q).sock = b.sock.set s q := rfl

/-! ## What a step moves -/

namespace Endpoint

/-- The receiving half, from the application back to the socket. -/
def recv (e : Endpoint) : Conduit UInt8 :=
  if e.app = .dropped then .cut [] else .flow e.inp.buffer.items * e.reader.conduit

/-- The sending half, from the socket back to the application. -/
def send (e : Endpoint) : Conduit UInt8 := e.writer.conduit * e.out.conduit

end Endpoint

/-- The bytes on their way from end `d` to the other end. -/
def conduit (b : Bridge) (d : Side) : Conduit UInt8 :=
  (b.ends.get d.other).recv * (.flow (b.sock.get d).items * (b.ends.get d).send)

/-- Everything a step of the writer task can do. -/
inductive WriterMove (b : Bridge) (s : Side) : WriterEvent → Bridge → Prop where
  | read {buf : TaskBuf} {bs : Bytes} {out : DuplexPipe} (hw : (b.ends.get s).writer = .read buf)
      (hne : bs ≠ []) (hlen : bs.length ≤ duplexSize)
      (hout : (b.ends.get s).out.buffer.items = bs ++ out.buffer.items)
      (hclosed : out.isClosed = (b.ends.get s).out.isClosed) :
      WriterMove b s .read (b.setEnd s
        { b.ends.get s with out := out, writer := .transmit (buf.fill bs hlen) })
  | readEnd {buf : TaskBuf} (hw : (b.ends.get s).writer = .read buf)
      (hout : (b.ends.get s).out.buffer.items = []) (hclosed : (b.ends.get s).out.isClosed = true) :
      WriterMove b s .read (b.setEnd s { b.ends.get s with writer := .left false })
  | transmit {buf : TaskBuf} {w : ℕ} {q : Socket}
      (hw : (b.ends.get s).writer = .transmit buf) (hle : w ≤ buf.slice.length)
      (hq : q.items = (b.sock.get s).items ++ buf.slice.take w)
      (hroom : (b.sock.get s).room = q.room + w) :
      WriterMove b s (.transmit w) ((b.setSock s q).setEnd s { b.ends.get s with
        writer := if w < buf.slice.length then .transmit (buf.advance w) else .read buf })
  | closed {buf : TaskBuf} (hw : (b.ends.get s).writer = .transmit buf)
      (hclosed : (b.ends.get s.other).socketClosed = true) :
      WriterMove b s .transmitClosed (b.setEnd s { b.ends.get s with writer := .left true })
  | failed {buf : TaskBuf} (hw : (b.ends.get s).writer = .transmit buf) :
      WriterMove b s .transmitErr (b.setEnd s { b.ends.get s with writer := .left true })
  | shutdown {failed : Bool} (hw : (b.ends.get s).writer = .left failed) :
      WriterMove b s .shutdown (b.setEnd s { b.ends.get s with writer := .shut failed })
  | drop {failed : Bool} (hw : (b.ends.get s).writer = .shut failed) :
      WriterMove b s .drop (b.setEnd s
        (Endpoint.dropHalf { b.ends.get s with writer := .ended failed }))

theorem writerMove_of_step {b b' : Bridge} {s : Side} {ev : WriterEvent}
    (h : b.writerStep s ev = some b') : WriterMove b s ev b' := by
  simp only [writerStep] at h
  split at h
  · rename_i buf hw
    split at h
    · simp at h
    · rename_i bs out hr
      obtain ⟨hitems, hclosed, hend⟩ := DuplexPipe.pollRead_ready hr
      split_ifs at h with hnil hlen
      · obtain ⟨hout, hc⟩ := hend (by decide) hnil
        obtain rfl := Option.some.inj h
        exact .readEnd hw hout hc
      · obtain rfl := Option.some.inj h
        exact .read hw hnil hlen hitems hclosed
  · rename_i buf w hw
    by_cases hle : w ≤ buf.slice.length
    · simp only [if_pos hle, Option.map_eq_some_iff] at h
      obtain ⟨q, hq, rfl⟩ := h
      have hroom := Socket.room_of_append hq
      rw [List.length_take, min_eq_left hle] at hroom
      exact .transmit hw hle (Socket.items_of_append hq) hroom
    · simp [hle] at h
  · rename_i buf hw
    split_ifs at h with hc
    obtain rfl := Option.some.inj h
    exact .closed hw hc
  · rename_i buf hw
    obtain rfl := Option.some.inj h
    exact .failed hw
  · rename_i failed hw
    obtain rfl := Option.some.inj h
    exact .shutdown hw
  · rename_i failed hw
    obtain rfl := Option.some.inj h
    exact .drop hw
  · simp at h

/-- Everything a step of the reader task can do. -/
inductive ReaderMove (b : Bridge) (s : Side) : ReaderEvent → Bridge → Prop where
  | receive {buf : TaskBuf} {r : ℕ} {bs : Bytes} {q : Socket}
      (hr : (b.ends.get s).reader = .receive buf) (hne : bs ≠ [])
      (hlen : bs.length ≤ duplexSize) (hq : (b.sock.get s.other).items = bs ++ q.items)
      (hbs : bs.length = r) (hroom : q.room = (b.sock.get s.other).room + r) :
      ReaderMove b s (.receive r) ((b.setSock s.other q).setEnd s
        { b.ends.get s with reader := .writeAll (buf.fill bs hlen) })
  | receiveNone {buf : TaskBuf} (hr : (b.ends.get s).reader = .receive buf) :
      ReaderMove b s (.receive 0) b
  | receiveEnd {buf : TaskBuf} (hr : (b.ends.get s).reader = .receive buf)
      (hq : (b.sock.get s.other).items = [])
      (hshut : (b.ends.get s.other).writer.hasShut = true) :
      ReaderMove b s .receiveEnd (b.setEnd s { b.ends.get s with reader := .left })
  | failed {buf : TaskBuf} (hr : (b.ends.get s).reader = .receive buf) :
      ReaderMove b s .receiveErr (b.setEnd s { b.ends.get s with reader := .left })
  | write {buf : TaskBuf} {n : ℕ} {inp : DuplexPipe}
      (hr : (b.ends.get s).reader = .writeAll buf) (hopen : (b.ends.get s).inp.isClosed = false)
      (hopen' : inp.isClosed = false)
      (hinp : inp.buffer.items = (b.ends.get s).inp.buffer.items ++ buf.slice.take n) :
      ReaderMove b s .write (b.setEnd s { b.ends.get s with
        inp := inp
        reader := if n < buf.slice.length then .writeAll (buf.advance n) else .receive buf })
  | writeBroken {buf : TaskBuf} (hr : (b.ends.get s).reader = .writeAll buf)
      (hclosed : (b.ends.get s).inp.isClosed = true) :
      ReaderMove b s .write (b.setEnd s { b.ends.get s with reader := .left })
  | shutdown (hr : (b.ends.get s).reader = .left) :
      ReaderMove b s .shutdown (b.setEnd s { b.ends.get s with reader := .shut })
  | drop (hr : (b.ends.get s).reader = .shut) :
      ReaderMove b s .drop (b.setEnd s (Endpoint.dropHalf
        { b.ends.get s with reader := .ended, inp := (b.ends.get s).inp.close }))

theorem readerMove_of_step {b b' : Bridge} {s : Side} {ev : ReaderEvent}
    (h : b.readerStep s ev = some b') : ReaderMove b s ev b' := by
  simp only [readerStep] at h
  split at h
  · rename_i buf r hr
    split_ifs at h with hle hz
    · obtain rfl := Option.some.inj h
      exact hz ▸ .receiveNone hr
    · obtain rfl := Option.some.inj h
      have hlen : ((b.sock.get s.other).items.take r).length = r := by simp; omega
      have hne : (b.sock.get s.other).items.take r ≠ [] :=
        List.ne_nil_of_length_pos (by omega)
      exact .receive hr hne (by omega) (by simp) hlen (Socket.drop_room hle.2)
  · rename_i buf hr
    split_ifs at h with hc
    obtain rfl := Option.some.inj h
    exact .receiveEnd hr hc.1 hc.2
  · rename_i buf hr
    obtain rfl := Option.some.inj h
    exact .failed hr
  · rename_i buf hr
    split at h
    · simp at h
    · rename_i hw
      obtain rfl := Option.some.inj h
      exact .writeBroken hr (DuplexPipe.pollWrite_eq_broken.mp hw)
    · rename_i n inp hw
      obtain ⟨hopen, hopen', hinp⟩ := DuplexPipe.pollWrite_accepted hw
      obtain rfl := Option.some.inj h
      exact .write hr hopen hopen' hinp
  · rename_i hr
    obtain rfl := Option.some.inj h
    exact .shutdown hr
  · rename_i hr
    obtain rfl := Option.some.inj h
    exact .drop hr
  · simp at h

/-- Everything a poll of the application can do. -/
inductive AppMove (b : Bridge) (s : Side) : StreamOp → Bridge → Prop where
  | write {offer : Bytes} {n : ℕ} {out : DuplexPipe} (happ : (b.ends.get s).app ≠ .dropped)
      (hne : offer ≠ []) (hopen : (b.ends.get s).out.isClosed = false)
      (hopen' : out.isClosed = false)
      (hout : out.buffer.items = (b.ends.get s).out.buffer.items ++ offer.take n) :
      AppMove b s (.write offer n) (b.setEnd s { b.ends.get s with out := out })
  | writeErr (happ : (b.ends.get s).app ≠ .dropped)
      (hclosed : (b.ends.get s).out.isClosed = true) : AppMove b s .writeErr b
  | read {bs : Bytes} {inp : DuplexPipe} (happ : (b.ends.get s).app ≠ .dropped) (hne : bs ≠ [])
      (hinp : (b.ends.get s).inp.buffer.items = bs ++ inp.buffer.items)
      (hclosed : inp.isClosed = (b.ends.get s).inp.isClosed) :
      AppMove b s (.read bs) (b.setEnd s { b.ends.get s with inp := inp })
  | readEof (happ : (b.ends.get s).app ≠ .dropped) (hinp : (b.ends.get s).inp.buffer.items = [])
      (hclosed : (b.ends.get s).inp.isClosed = true) : AppMove b s .readEof b

theorem appMove_of_step {b b' : Bridge} {s : Side} {op : StreamOp}
    (h : b.appStep s op = some b') : AppMove b s op b' := by
  simp only [appStep] at h
  by_cases happ : (b.ends.get s).app = .dropped
  · simp [happ] at h
  · rw [if_neg happ] at h
    cases op with
    | write offer n =>
      dsimp only at h
      split at h
      · rename_i m out hw
        obtain ⟨hopen, hopen', hout⟩ := DuplexPipe.pollWrite_accepted hw
        split_ifs at h with hc
        obtain rfl := Option.some.inj h
        exact .write happ hc.1 hopen hopen' (hc.2 ▸ hout)
      · simp at h
    | writeErr =>
      dsimp only at h
      split_ifs at h with hc
      obtain rfl := Option.some.inj h
      exact .writeErr happ hc
    | read bs =>
      dsimp only at h
      split at h
      · rename_i cs inp hr
        obtain ⟨hinp, hclosed, _⟩ := DuplexPipe.pollRead_ready hr
        split_ifs at h with hc
        obtain rfl := Option.some.inj h
        exact .read happ hc.1 (hc.2 ▸ hinp) hclosed
      · simp at h
    | readEof =>
      dsimp only at h
      split at h
      · rename_i inp hr
        obtain ⟨_, _, hend⟩ := DuplexPipe.pollRead_ready hr
        obtain ⟨hinp, hclosed⟩ := hend (by decide) rfl
        obtain rfl := Option.some.inj h
        exact .readEof happ hinp hclosed
      · simp at h
    | readErr => simp at h

/-! ## Steps and conduits -/

namespace Endpoint

@[simp] theorem dropHalf_app (e : Endpoint) : e.dropHalf.app = e.app := by
  simp only [dropHalf]
  split <;> rfl

@[simp] theorem dropHalf_writer (e : Endpoint) : e.dropHalf.writer = e.writer := by
  simp only [dropHalf]
  split <;> rfl

@[simp] theorem dropHalf_reader (e : Endpoint) : e.dropHalf.reader = e.reader := by
  simp only [dropHalf]
  split <;> rfl

@[simp] theorem dropHalf_recv (e : Endpoint) : e.dropHalf.recv = e.recv := by
  simp only [dropHalf]
  split <;> rfl

/-- Closing the outer pipe behind the ended writer task changes nothing on the wire. -/
@[simp] theorem dropHalf_send (e : Endpoint) : e.dropHalf.send = e.send := by
  simp only [dropHalf]
  split
  · rename_i h
    have hw : e.writer.hasEnded = true := by
      simp only [socketClosed, Bool.and_eq_true] at h
      exact h.1
    cases he : e.writer <;> simp [he, WriterTask.hasEnded] at hw
    simp [send, he, WriterTask.conduit]
  · rfl

end Endpoint

section Local

variable {b b' : Bridge} {s : Side}

/-- A step at end `s` keeps both conduits when it keeps what end `s` sends and
receives together with the socket. -/
theorem conduit_eq_of_local (hother : b'.ends.get s.other = b.ends.get s.other)
    (hsend : Conduit.flow (b'.sock.get s).items * (b'.ends.get s).send =
      .flow (b.sock.get s).items * (b.ends.get s).send)
    (hrecv : (b'.ends.get s).recv * .flow (b'.sock.get s.other).items =
      (b.ends.get s).recv * .flow (b.sock.get s.other).items) (d : Side) :
    b'.conduit d = b.conduit d := by
  rcases Side.eq_or_eq_other d s with rfl | rfl
  · simp only [conduit, hsend, hother]
  · simp only [conduit, Side.other_other, ← mul_assoc, hrecv, hother]

theorem setEnd_conduit_le {e : Endpoint} (hsend : e.send ≤ (b.ends.get s).send)
    (hrecv : e.recv ≤ (b.ends.get s).recv) (d : Side) : (b.setEnd s e).conduit d ≤ b.conduit d := by
  rcases Side.eq_or_eq_other d s with rfl | rfl
  · simp only [conduit, setEnd_ends, setEnd_sock, Pair.get_set, Pair.get_set_other]
    gcongr
  · simp only [conduit, Side.other_other, setEnd_ends, setEnd_sock, Pair.get_set,
      Pair.get_set_other]
    gcongr

end Local

/-- A writer step other than a failed transmit neither loses nor invents a byte. -/
theorem WriterMove.conduit_eq {b b' : Bridge} {s : Side} {ev : WriterEvent}
    (h : WriterMove b s ev b') (hc : ev ≠ .transmitClosed) (he : ev ≠ .transmitErr) (d : Side) :
    b'.conduit d = b.conduit d := by
  cases h with
  | @read buf bs out hw hne hlen hout hclosed =>
    have hsplit : (b.ends.get s).out.conduit = .flow bs * out.conduit := by
      simp [DuplexPipe.conduit, hout, hclosed, Conduit.mul_def]
    apply conduit_eq_of_local (s := s) (by simp)
    · simp [Endpoint.send, hw, WriterTask.conduit, hsplit]
    · simp [Endpoint.recv]
  | readEnd hw hout hclosed =>
    have hcut : (b.ends.get s).out.conduit = .cut [] := by
      simp [DuplexPipe.conduit, hout, hclosed, Conduit.cut]
    apply conduit_eq_of_local (s := s) (by simp)
    · simp [Endpoint.send, hw, WriterTask.conduit, hcut]
    · simp [Endpoint.recv]
  | @transmit buf w q hw hle hq =>
    apply conduit_eq_of_local (s := s) (by simp)
    · by_cases hlt : w < buf.slice.length
      · simp [Endpoint.send, hw, WriterTask.conduit, hq, hlt, ← mul_assoc]
      · have hw' : w = buf.slice.length := by omega
        simp [Endpoint.send, hw, WriterTask.conduit, hq, hw', ← mul_assoc]
    · simp [Endpoint.recv]
  | closed => exact absurd rfl hc
  | failed => exact absurd rfl he
  | shutdown hw =>
    apply conduit_eq_of_local (s := s) (by simp)
    · simp [Endpoint.send, hw, WriterTask.conduit]
    · simp [Endpoint.recv]
  | drop hw =>
    apply conduit_eq_of_local (s := s) (by simp)
    · simp only [setEnd_ends, setEnd_sock, Pair.get_set, Endpoint.dropHalf_send]
      simp [Endpoint.send, hw, WriterTask.conduit]
    · simp only [setEnd_ends, setEnd_sock, Pair.get_set, Endpoint.dropHalf_recv]
      simp [Endpoint.recv]

/-- A failed transmit cuts the stream off behind the socket. -/
theorem writer_left_le (b : Bridge) (s d : Side) (failed : Bool) :
    (b.setEnd s { b.ends.get s with writer := .left failed }).conduit d ≤ b.conduit d := by
  apply setEnd_conduit_le
  · simp [Endpoint.send, WriterTask.conduit]
  · simp [Endpoint.recv]

theorem WriterMove.conduit_le {b b' : Bridge} {s : Side} {ev : WriterEvent}
    (h : WriterMove b s ev b') (d : Side) : b'.conduit d ≤ b.conduit d := by
  by_cases hc : ev = .transmitClosed
  · subst hc
    cases h with
    | closed hw _ => exact writer_left_le b s d true
  by_cases he : ev = .transmitErr
  · subst he
    cases h with
    | failed hw => exact writer_left_le b s d true
  exact (h.conduit_eq hc he d).le

/-- A reader that leaves its loop cuts the stream off in front of the pipe. -/
theorem reader_left_le (b : Bridge) (s d : Side) :
    (b.setEnd s { b.ends.get s with reader := .left }).conduit d ≤ b.conduit d := by
  apply setEnd_conduit_le
  · simp [Endpoint.send]
  · simp only [Endpoint.recv, ReaderTask.conduit]
    split
    · exact le_rfl
    · gcongr
      exact Conduit.cut_nil_le _

/-- A reader step keeps every byte unless the task leaves its loop because a
receive failed or the pipe is broken. -/
theorem ReaderMove.conduit_cases {b b' : Bridge} {s : Side} {ev : ReaderEvent}
    (h : ReaderMove b s ev b') : (∀ d, b'.conduit d = b.conduit d) ∨
      b' = b.setEnd s { b.ends.get s with reader := .left } ∧
        (ev = .receiveErr ∨
          (b.ends.get s).reader.looping = true ∧ (b.ends.get s).inp.isClosed = true) := by
  cases h with
  | @receive buf r bs q hr hne hlen hq =>
    left
    apply conduit_eq_of_local (s := s) (by simp)
    · simp [Endpoint.send]
    · simp only [Endpoint.recv, setEnd_ends, setEnd_sock, setSock_sock, Pair.get_set, hr, hq,
        ReaderTask.conduit, TaskBuf.slice_fill]
      split <;> simp
  | receiveNone => exact .inl fun _ => rfl
  | receiveEnd hr hq hshut =>
    left
    intro d
    have hcut : (b.ends.get s.other).writer.conduit = .cut [] := by
      cases hw : (b.ends.get s.other).writer <;> simp [hw, WriterTask.hasShut] at hshut <;> rfl
    rcases Side.eq_or_eq_other d s with rfl | rfl
    · simp [conduit, Endpoint.send]
    · simp only [conduit, Side.other_other, setEnd_ends, setEnd_sock, Pair.get_set,
        Pair.get_set_other, Endpoint.recv, Endpoint.send, hq, hcut, hr, ReaderTask.conduit]
      split <;> simp
  | failed => exact .inr ⟨rfl, .inl rfl⟩
  | @write buf n inp hr hopen hopen' hitems =>
    left
    apply conduit_eq_of_local (s := s) (by simp)
    · simp [Endpoint.send]
    · simp only [Endpoint.recv, setEnd_ends, setEnd_sock, Pair.get_set, hr, hitems,
        ReaderTask.conduit]
      by_cases hlt : n < buf.slice.length
      · simp [hlt]
      · have hall : buf.slice.take n = buf.slice := List.take_of_length_le (by omega)
        simp [hlt, hall]
  | writeBroken hr hclosed => exact .inr ⟨rfl, .inr ⟨by simp [hr, ReaderTask.looping], hclosed⟩⟩
  | shutdown hr =>
    left
    apply conduit_eq_of_local (s := s) (by simp)
    · simp [Endpoint.send]
    · simp [Endpoint.recv, hr, ReaderTask.conduit]
  | drop hr =>
    left
    apply conduit_eq_of_local (s := s) (by simp)
    · simp only [setEnd_ends, setEnd_sock, Pair.get_set, Endpoint.dropHalf_send]
      simp [Endpoint.send]
    · simp only [setEnd_ends, setEnd_sock, Pair.get_set, Endpoint.dropHalf_recv]
      simp [Endpoint.recv, hr, ReaderTask.conduit]

theorem ReaderMove.conduit_le {b b' : Bridge} {s : Side} {ev : ReaderEvent}
    (h : ReaderMove b s ev b') (d : Side) : b'.conduit d ≤ b.conduit d := by
  rcases h.conduit_cases with heq | ⟨rfl, _⟩
  · exact (heq d).le
  · exact reader_left_le b s d

/-- A poll of the application moves exactly the bytes that it reports. -/
theorem AppMove.conduit_eq {b b' : Bridge} {s : Side} {op : StreamOp} (h : AppMove b s op b') :
    b'.conduit s = b.conduit s * .flow op.written ∧
      .flow op.taken * b'.conduit s.other = b.conduit s.other := by
  cases h with
  | @write offer n out happ hne hopen hopen' hout =>
    have hsplit : out.conduit = (b.ends.get s).out.conduit * .flow (offer.take n) := by
      simp [DuplexPipe.conduit_of_open, hopen, hopen', hout]
    refine ⟨?_, by simp [conduit, StreamOp.taken, Endpoint.recv]⟩
    simp [conduit, StreamOp.written, Endpoint.send, hsplit, mul_assoc]
  | writeErr => simp [StreamOp.written, StreamOp.taken]
  | @read bs inp happ hne hinp hclosed =>
    refine ⟨by simp [conduit, StreamOp.written, Endpoint.send], ?_⟩
    simp [conduit, StreamOp.taken, Endpoint.recv, happ, hinp, ← mul_assoc]
  | readEof => simp [StreamOp.written, StreamOp.taken]

theorem drop_conduit_le (b : Bridge) (s d : Side) : (b.drop s).conduit d ≤ b.conduit d := by
  apply setEnd_conduit_le
  · simp only [Endpoint.send, Endpoint.drop]
    gcongr
    exact (b.ends.get s).out.conduit_close_le
  · simp [Endpoint.recv, Endpoint.drop]

end Bridge

end EnclaveNetworkGateway
