import EnclaveNetworkGateway.BridgeInvariant
import Mathlib.Logic.Relation

/-!
# Links between two processes

A process talks to its neighbour over a plain TCP connection or over a rats-tls
bridge. Both answer the same stream operations, and both can be seen as one
conduit in each direction.
-/
namespace EnclaveNetworkGateway

/-- A plain connection. `sock` and `cut` are indexed by the sending end, `gone`
tells which process has closed its socket. -/
structure Connection where
  sock : Pair Socket
  cut : Pair Bool
  gone : Pair Bool
  deriving DecidableEq

namespace Connection

def new (cap : ℕ) (h : 0 < cap) : Connection := ⟨.both (.empty cap h), .both false, .both false⟩

/-- Bytes sent from end `d` no longer arrive, or nobody sends any. -/
def ended (c : Connection) (d : Side) : Bool := c.cut.get d || c.gone.get d

/-- Bytes sent from end `d` are not delivered: the direction is cut or the reader gone. -/
def lost (c : Connection) (d : Side) : Bool := c.cut.get d || c.gone.get d.other

def setSock (c : Connection) (s : Side) (q : Socket) : Connection :=
  { c with sock := c.sock.set s q }

/-- A poll of the process at end `s`. A write to a connection that lost its reader
is swallowed or fails; a read sees the end behind the bytes that arrived, or an
error at any time after the connection broke. -/
def io (c : Connection) (s : Side) (op : StreamOp) : Option Connection :=
  if c.gone.get s then none
  else match op with
    | .write offer n =>
      if 0 < n ∧ n ≤ offer.length then
        if c.lost s then some c
        else ((c.sock.get s).append (offer.take n)).map (c.setSock s)
      else none
    | .writeErr => if c.lost s then some c else none
    | .read bs =>
      if bs ≠ [] ∧ bs <+: (c.sock.get s.other).items then
        some (c.setSock s.other ((c.sock.get s.other).drop bs.length))
      else none
    | .readEof =>
      if (c.sock.get s.other).items = [] ∧ c.ended s.other then some c else none
    | .readErr => if c.ended s.other then some c else none

/-- The network cuts direction `d` behind the first `n` bytes under way. -/
def sever (c : Connection) (d : Side) (n : ℕ) : Connection :=
  { c with sock := c.sock.set d ((c.sock.get d).truncate n), cut := c.cut.set d true }

/-- The process at end `s` closes its socket. -/
def drop (c : Connection) (s : Side) : Connection := { c with gone := c.gone.set s true }

/-- The bytes on their way from end `d`. -/
def conduit (c : Connection) (d : Side) : Conduit UInt8 :=
  if c.gone.get d.other then .cut [] else ⟨(c.sock.get d).items, !c.ended d⟩

/-- Everything a poll can do. -/
inductive Move (c : Connection) (s : Side) : StreamOp → Connection → Prop where
  | write {offer : Bytes} {n : ℕ} {q : Socket} (hs : c.gone.get s = false)
      (hl : c.lost s = false) (hq : q.items = (c.sock.get s).items ++ offer.take n) :
      Move c s (.write offer n) (c.setSock s q)
  | swallow {offer : Bytes} {n : ℕ} (hl : c.lost s = true) : Move c s (.write offer n) c
  | writeErr (hl : c.lost s = true) : Move c s .writeErr c
  | read {bs : Bytes} {q : Socket} (hs : c.gone.get s = false)
      (hq : (c.sock.get s.other).items = bs ++ q.items) :
      Move c s (.read bs) (c.setSock s.other q)
  | readEof (he : c.ended s.other = true) : Move c s .readEof c
  | readErr (he : c.ended s.other = true) : Move c s .readErr c

theorem move_of_io {c c' : Connection} {s : Side} {op : StreamOp} (h : c.io s op = some c') :
    Move c s op c' := by
  simp only [io] at h
  by_cases hs : c.gone.get s = true
  · simp [hs] at h
  · rw [if_neg hs] at h
    have hs' : c.gone.get s = false := by simpa using hs
    cases op with
    | write offer n =>
      dsimp only at h
      split_ifs at h with hn hl
      · obtain rfl := Option.some.inj h
        exact .swallow hl
      · simp only [Option.map_eq_some_iff] at h
        obtain ⟨q, hq, rfl⟩ := h
        exact .write hs' (by simpa using hl) (Socket.items_of_append hq)
    | writeErr =>
      dsimp only at h
      split_ifs at h with hl
      obtain rfl := Option.some.inj h
      exact .writeErr hl
    | read bs =>
      dsimp only at h
      split_ifs at h with hp
      obtain rfl := Option.some.inj h
      obtain ⟨rest, hrest⟩ := hp.2
      exact .read hs' (by simp [← hrest])
    | readEof =>
      dsimp only at h
      split_ifs at h with he
      obtain rfl := Option.some.inj h
      exact .readEof he.2
    | readErr =>
      dsimp only at h
      split_ifs at h with he
      obtain rfl := Option.some.inj h
      exact .readErr he

/-- A poll moves exactly the bytes that it reports. -/
theorem Move.conduit_eq {c c' : Connection} {s : Side} {op : StreamOp} (h : Move c s op c') :
    c'.conduit s = c.conduit s * .flow op.written ∧
      .flow op.taken * c'.conduit s.other = c.conduit s.other := by
  cases h with
  | write hs hl hq =>
    simp only [lost, Bool.or_eq_false_iff] at hl
    simp [conduit, StreamOp.written, StreamOp.taken, setSock, ended, hs, hl, hq, Conduit.mul_def]
  | swallow hl =>
    refine ⟨(Conduit.mul_of_not_live ?_ _).symm, by simp [StreamOp.taken]⟩
    simp only [lost, Bool.or_eq_true] at hl
    rcases hl with hl | hl <;> simp [conduit, ended, hl]
    split <;> rfl
  | writeErr => simp [StreamOp.written, StreamOp.taken]
  | read hs hq =>
    simp [conduit, StreamOp.written, StreamOp.taken, setSock, ended, hs, hq, Conduit.mul_def]
  | readEof => simp [StreamOp.written, StreamOp.taken]
  | readErr => simp [StreamOp.written, StreamOp.taken]

theorem sever_conduit_le (c : Connection) (e : Side) (n : ℕ) (d : Side) :
    (c.sever e n).conduit d ≤ c.conduit d := by
  rcases Side.eq_or_eq_other d e with rfl | rfl
  · by_cases hg : c.gone.get d.other = true
    · simp [conduit, sever, hg]
    · have hcut : (c.sever d n).conduit d = .cut ((c.sock.get d).items.take n) := by
        simp [conduit, sever, ended, hg, Conduit.cut]
      rw [hcut]
      apply Conduit.cut_le
      simpa [conduit, hg] using List.take_prefix n _
  · simp [conduit, sever, ended]

theorem drop_conduit_le (c : Connection) (s d : Side) : (c.drop s).conduit d ≤ c.conduit d := by
  rcases Side.eq_or_eq_other d s with rfl | rfl
  · by_cases hg : c.gone.get d.other = true
    · simp [conduit, drop, hg]
    · have hcut : (c.drop d).conduit d = .cut (c.sock.get d).items := by
        simp [conduit, drop, ended, hg, Conduit.cut]
      rw [hcut]
      apply Conduit.cut_le
      simp [conduit, hg]
  · simp [conduit, drop]

end Connection

/-- How two neighbours are connected. -/
inductive Link where
  | plain (c : Connection)
  | tls (b : Bridge)
  deriving DecidableEq

/-- What happens to a link besides the polls of its two processes: the network
cuts a plain connection, a task of a bridge takes a step. -/
inductive LinkEvent where
  | sever (d : Side) (n : ℕ)
  | writer (s : Side) (ev : Bridge.WriterEvent)
  | reader (s : Side) (ev : Bridge.ReaderEvent)
  deriving DecidableEq, Repr

namespace Link

def io (l : Link) (s : Side) (op : StreamOp) : Option Link :=
  match l with
  | plain c => (c.io s op).map plain
  | tls b => (b.appStep s op).map tls

/-- The process at end `s` drops its stream. -/
def drop (l : Link) (s : Side) : Link :=
  match l with
  | plain c => plain (c.drop s)
  | tls b => tls (b.drop s)

def step (l : Link) (ev : LinkEvent) : Option Link :=
  match l, ev with
  | plain c, .sever d n => some (plain (c.sever d n))
  | tls b, .writer s ev => (b.writerStep s ev).map tls
  | tls b, .reader s ev => (b.readerStep s ev).map tls
  | _, _ => none

/-- The bytes on their way from end `d`. -/
def conduit (l : Link) (d : Side) : Conduit UInt8 :=
  match l with
  | plain c => c.conduit d
  | tls b => b.conduit d

/-- The process at end `s` has dropped its stream. -/
def gone (l : Link) (s : Side) : Bool :=
  match l with
  | plain c => c.gone.get s
  | tls b => (b.ends.get s).app = .dropped

/-- The stream from end `d` may be at its end for the reader. -/
def ended (l : Link) (d : Side) : Bool :=
  match l with
  | plain c => c.ended d
  | tls b => (b.ends.get d.other).reader.hasEnded

/-- Neither the link nor a task that works for it has stopped. -/
def whole (l : Link) : Bool :=
  match l with
  | plain c => !c.ended .left && !c.ended .right
  | tls b => [Side.left, .right].all fun s =>
      (b.ends.get s).app = .live && (b.ends.get s).writer.looping && (b.ends.get s).reader.looping

def Wf : Link → Prop
  | plain _ => True
  | tls b => b.Wf

variable {l l' : Link}

/-- A poll is one of the connection or of the bridge. -/
inductive IoMove : Link → Side → StreamOp → Link → Prop where
  | plain {c c' : Connection} {s : Side} {op : StreamOp} (h : Connection.Move c s op c') :
      IoMove (.plain c) s op (.plain c')
  | tls {b b' : Bridge} {s : Side} {op : StreamOp} (h : Bridge.AppMove b s op b') :
      IoMove (.tls b) s op (.tls b')

theorem ioMove_of_io {s : Side} {op : StreamOp} (h : l.io s op = some l') : IoMove l s op l' := by
  cases l with
  | plain c =>
    simp only [io, Option.map_eq_some_iff] at h
    obtain ⟨c', hc, rfl⟩ := h
    exact .plain (Connection.move_of_io hc)
  | tls b =>
    simp only [io, Option.map_eq_some_iff] at h
    obtain ⟨b', hb, rfl⟩ := h
    exact .tls (Bridge.appMove_of_step hb)

/-- A step of a link is a cut of the connection or a step of a task of the bridge. -/
inductive StepMove : Link → LinkEvent → Link → Prop where
  | sever (c : Connection) (d : Side) (n : ℕ) :
      StepMove (.plain c) (.sever d n) (.plain (c.sever d n))
  | writer {b b' : Bridge} {s : Side} {ev : Bridge.WriterEvent} (h : Bridge.WriterMove b s ev b') :
      StepMove (.tls b) (.writer s ev) (.tls b')
  | reader {b b' : Bridge} {s : Side} {ev : Bridge.ReaderEvent} (h : Bridge.ReaderMove b s ev b') :
      StepMove (.tls b) (.reader s ev) (.tls b')

theorem stepMove_of_step {ev : LinkEvent} (h : l.step ev = some l') : StepMove l ev l' := by
  cases l with
  | plain c =>
    cases ev with
    | sever d n =>
      obtain rfl := Option.some.inj h
      exact .sever c d n
    | writer s ev => simp [step] at h
    | reader s ev => simp [step] at h
  | tls b =>
    cases ev with
    | sever d n => simp [step] at h
    | writer s ev =>
      simp only [step, Option.map_eq_some_iff] at h
      obtain ⟨b', hb, rfl⟩ := h
      exact .writer (Bridge.writerMove_of_step hb)
    | reader s ev =>
      simp only [step, Option.map_eq_some_iff] at h
      obtain ⟨b', hb, rfl⟩ := h
      exact .reader (Bridge.readerMove_of_step hb)

theorem io_conduit {s : Side} {op : StreamOp} (h : l.io s op = some l') :
    l'.conduit s = l.conduit s * .flow op.written ∧
      .flow op.taken * l'.conduit s.other = l.conduit s.other := by
  cases ioMove_of_io h with
  | plain hm => exact hm.conduit_eq
  | tls hm => exact hm.conduit_eq

theorem step_conduit_le {ev : LinkEvent} (h : l.step ev = some l') (d : Side) :
    l'.conduit d ≤ l.conduit d := by
  cases stepMove_of_step h with
  | sever c e n => exact c.sever_conduit_le e n d
  | writer hm => exact hm.conduit_le d
  | reader hm => exact hm.conduit_le d

theorem drop_conduit_le (l : Link) (s d : Side) : (l.drop s).conduit d ≤ l.conduit d := by
  cases l with
  | plain c => exact c.drop_conduit_le s d
  | tls b => exact b.drop_conduit_le s d

/-! ## Ownership and ends -/

theorem io_wf {s : Side} {op : StreamOp} (h : l.io s op = some l') (hl : l.Wf) : l'.Wf := by
  cases ioMove_of_io h with
  | plain hm => trivial
  | tls hm => exact hm.wf hl

theorem step_wf {ev : LinkEvent} (h : l.step ev = some l') (hl : l.Wf) : l'.Wf := by
  cases stepMove_of_step h with
  | sever c e n => trivial
  | writer hm => exact hm.wf hl
  | reader hm => exact hm.wf hl

theorem drop_wf (hl : l.Wf) (s : Side) : (l.drop s).Wf := by
  cases l with
  | plain c => trivial
  | tls b => exact Bridge.drop_wf hl s

/-- Polling leaves both streams with their owners. -/
theorem io_gone {s : Side} {op : StreamOp} (h : l.io s op = some l') (d : Side) :
    l'.gone d = l.gone d := by
  cases ioMove_of_io h with
  | plain hm => cases hm <;> rfl
  | tls hm => simp only [gone, hm.app]

theorem step_gone {ev : LinkEvent} (h : l.step ev = some l') (d : Side) : l'.gone d = l.gone d := by
  cases stepMove_of_step h with
  | sever c e n => rfl
  | writer hm => simp only [gone, hm.app]
  | reader hm => simp only [gone, hm.app]

@[simp] theorem drop_gone (l : Link) (s : Side) : (l.drop s).gone s = true := by
  cases l with
  | plain c => simp [drop, gone, Connection.drop]
  | tls b => simp [drop, gone, Bridge.drop, Bridge.Endpoint.drop]

@[simp] theorem drop_gone_other (l : Link) (s : Side) : (l.drop s).gone s.other = l.gone s.other := by
  cases l with
  | plain c => simp [drop, gone, Connection.drop]
  | tls b => simp [drop, gone, Bridge.drop]

/-- A read that finds no more bytes finds the stream at its end. -/
theorem io_end {s : Side} {op : StreamOp} (h : l.io s op = some l') (hl : l.Wf)
    (hop : op = .readEof ∨ op = .readErr) : l.ended s.other = true := by
  cases ioMove_of_io h with
  | plain hm =>
    rcases hop with rfl | rfl
    · cases hm with
      | readEof he => exact he
    · cases hm with
      | readErr he => exact he
  | tls hm =>
    rcases hop with rfl | rfl
    · cases hm with
      | readEof hd _ hclosed =>
        simpa [ended] using ((hl s).inp_closed.mp hclosed).resolve_left hd
    · cases hm

/-- The end of a stream stays its end. -/
theorem io_ended {s : Side} {op : StreamOp} (h : l.io s op = some l') {d : Side}
    (hd : l.ended d = true) : l'.ended d = true := by
  cases ioMove_of_io h with
  | plain hm => cases hm <;> exact hd
  | tls hm => simpa only [ended, hm.reader] using hd

theorem step_ended {ev : LinkEvent} (h : l.step ev = some l') {d : Side}
    (hd : l.ended d = true) : l'.ended d = true := by
  cases stepMove_of_step h with
  | sever c e n =>
    simp only [ended, Connection.ended, Bool.or_eq_true] at hd ⊢
    rcases Side.eq_or_eq_other d e with rfl | rfl
    · simp [Connection.sever]
    · simpa [Connection.sever] using hd
  | writer hm => simpa only [ended, hm.reader] using hd
  | reader hm => exact hm.hasEnded hd

theorem drop_ended {d : Side} (s : Side) (hd : l.ended d = true) : (l.drop s).ended d = true := by
  cases l with
  | plain c =>
    simp only [ended, drop, Connection.ended, Connection.drop, Bool.or_eq_true] at hd ⊢
    rcases Side.eq_or_eq_other d s with rfl | rfl
    · simp
    · simpa using hd
  | tls b => simpa only [ended, drop, Bridge.drop_reader] using hd

/-- A link changes by a poll, by the drop of a stream or by a step of its own. -/
inductive Move : Link → Link → Prop where
  | io {l l' : Link} {s : Side} {op : StreamOp} (h : l.io s op = some l') : Move l l'
  | drop (l : Link) (s : Side) : Move l (l.drop s)
  | step {l l' : Link} {ev : LinkEvent} (h : l.step ev = some l') : Move l l'

/-- Any number of changes. -/
abbrev Moves : Link → Link → Prop := Relation.ReflTransGen Move

theorem Moves.wf (h : Moves l l') (hl : l.Wf) : l'.Wf := by
  induction h with
  | refl => exact hl
  | tail _ hm ih =>
    cases hm with
    | io h => exact io_wf h ih
    | drop s => exact drop_wf ih s
    | step h => exact step_wf h ih

theorem Moves.ended {d : Side} (h : Moves l l') (hd : l.ended d = true) : l'.ended d = true := by
  induction h with
  | refl => exact hd
  | tail _ hm ih =>
    cases hm with
    | io h => exact io_ended h ih
    | drop s => exact drop_ended s ih
    | step h => exact step_ended h ih

/-- A whole link is connected from end to end. -/
theorem conduit_live_of_whole (hl : l.Wf) (hw : l.whole = true) (d : Side) :
    (l.conduit d).live = true ∧ l.ended d = false := by
  cases l with
  | plain c =>
    simp only [whole, Connection.ended, Bool.and_eq_true, Bool.not_eq_true', Bool.or_eq_false_iff]
      at hw
    cases d <;> simp [conduit, Connection.conduit, ended, Connection.ended, hw, Side.other]
  | tls b =>
    have hall : ∀ s, (b.ends.get s).app = .live ∧ (b.ends.get s).writer.looping = true ∧
        (b.ends.get s).reader.looping = true := by
      simp only [whole, List.all_cons, List.all_nil, Bool.and_eq_true, decide_eq_true_eq] at hw
      intro s
      cases s
      · exact ⟨hw.1.1.1, hw.1.1.2, hw.1.2⟩
      · exact ⟨hw.2.1.1.1, hw.2.1.1.2, hw.2.1.2⟩
    obtain ⟨hlive, hwriter, _⟩ := hall d
    obtain ⟨hother, _, hreader⟩ := hall d.other
    have hopen : (b.ends.get d).out.isClosed = false := by
      by_contra hc
      have hor := (hl d).out_closed.mp (by simpa using hc)
      simp [hlive, Bridge.Endpoint.socketClosed,
        Bridge.WriterTask.hasEnded_of_looping hwriter] at hor
    constructor
    · simp [conduit, Bridge.conduit, Bridge.Endpoint.recv, Bridge.Endpoint.send, hother, hreader,
        hwriter, hopen]
    · exact Bridge.ReaderTask.hasEnded_of_looping hreader

/-- A link as it is when forwarding starts. -/
def Fresh (l : Link) : Prop := ∃ cap h, l = .plain (.new cap h) ∨ l = .tls (.new cap h)

theorem Fresh.conduit (h : l.Fresh) (d : Side) : l.conduit d = 1 := by
  obtain ⟨cap, hcap, rfl | rfl⟩ := h
  · simp [Link.conduit, Connection.conduit, Connection.new, Connection.ended]
    rfl
  · simp [Link.conduit, Bridge.conduit, Bridge.new, Bridge.Endpoint.new, Bridge.Endpoint.recv,
      Bridge.Endpoint.send, Bridge.ReaderTask.conduit, Bridge.WriterTask.conduit,
      DuplexPipe.conduit, DuplexPipe.new]
    rfl

theorem Fresh.wf (h : l.Fresh) : l.Wf := by
  obtain ⟨cap, hcap, rfl | rfl⟩ := h
  · trivial
  · exact Bridge.new_wf cap hcap

theorem Fresh.gone (h : l.Fresh) (s : Side) : l.gone s = false := by
  obtain ⟨cap, hcap, rfl | rfl⟩ := h
  · simp [Link.gone, Connection.new]
  · simp [Link.gone, Bridge.new, Bridge.Endpoint.new]

end Link

end EnclaveNetworkGateway
