import EnclaveNetworkGateway.Reception
import EnclaveNetworkGateway.TunnelShutdown

/-!
# The tunnel left alone

A step that the tunnel takes by itself brings some bytes nearer to a TUN device, or
something comes to its end. A byte has a price at each place on its way, lower by one at
the next place, and the sum of all prices is a bound on the steps that are left.
-/
namespace EnclaveNetworkGateway

open FrameCodec

/-! ## Links -/

namespace Bridge

/-- The steps that a task takes from its loops to its end. -/
def WriterTask.rank : WriterTask → ℕ
  | read _ | transmit _ => 3
  | left _ => 2
  | shut _ => 1
  | ended _ => 0

def ReaderTask.rank : ReaderTask → ℕ
  | receive _ | writeAll _ => 3
  | left => 2
  | shut => 1
  | ended => 0

/-- What the pipes and tasks of an end hold. A byte that the application can read is worth
`inp`, and one that it has just written `out + 4`. -/
def Endpoint.load (e : Endpoint) (out inp : ℕ) : ℕ :=
  (out + 4) * e.out.buffer.items.length + (out + 3) * e.writer.conduit.held.length +
    e.writer.rank + (inp + 1) * e.reader.conduit.held.length +
    inp * e.inp.buffer.items.length + e.reader.rank

/-- An end with the socket that it sends on; `w` is indexed by the sending end. -/
def endLoad (b : Bridge) (w : Side → ℕ) (s : Side) : ℕ :=
  (b.ends.get s).load (w s) (w s.other) + (w s + 2) * (b.sock.get s).items.length

def load (b : Bridge) (w : Side → ℕ) : ℕ := b.endLoad w .left + b.endLoad w .right

section Load

variable {b b' : Bridge} {w : Side → ℕ} {s : Side}

theorem load_eq (b : Bridge) (w : Side → ℕ) (s : Side) :
    b.load w = b.endLoad w s + b.endLoad w s.other := by
  cases s with
  | left => rfl
  | right => exact Nat.add_comm _ _

@[simp] theorem dropHalf_load (e : Endpoint) (out inp : ℕ) :
    e.dropHalf.load out inp = e.load out inp := by
  simp only [Endpoint.dropHalf]
  split <;> rfl

/-- A step at end `s` that leaves the other end alone. -/
theorem load_le_of_local {n : ℕ} (hends : b'.ends.get s.other = b.ends.get s.other)
    (h : (b'.ends.get s).load (w s) (w s.other) + (w s + 2) * (b'.sock.get s).items.length +
        (w s.other + 2) * (b'.sock.get s.other).items.length + n ≤
      (b.ends.get s).load (w s) (w s.other) + (w s + 2) * (b.sock.get s).items.length +
        (w s.other + 2) * (b.sock.get s.other).items.length) : b'.load w + n ≤ b.load w := by
  rw [load_eq b' w s, load_eq b w s]
  simp only [endLoad, hends, Side.other_other]
  omega

/-- A writer task inside its inner loop has `n` bytes less to transmit. -/
theorem writer_after {buf : TaskBuf} {n : ℕ} (hle : n ≤ buf.slice.length) :
    let t : WriterTask := if n < buf.slice.length then .transmit (buf.advance n) else .read buf
    t.conduit.held.length + n = buf.slice.length ∧ t.rank = 3 := by
  dsimp only
  split
  · constructor
    · simp only [WriterTask.conduit, Conduit.flow_held, TaskBuf.slice_advance, List.length_drop]
      omega
    · rfl
  · constructor
    · simp only [WriterTask.conduit, Conduit.one_held, List.length_nil]
      omega
    · rfl

theorem reader_after {buf : TaskBuf} {n : ℕ} (hle : n ≤ buf.slice.length) :
    let t : ReaderTask := if n < buf.slice.length then .writeAll (buf.advance n) else .receive buf
    t.conduit.held.length + n = buf.slice.length ∧ t.rank = 3 := by
  dsimp only
  split
  · constructor
    · simp only [ReaderTask.conduit, Conduit.flow_held, TaskBuf.slice_advance, List.length_drop]
      omega
    · rfl
  · constructor
    · simp only [ReaderTask.conduit, Conduit.one_held, List.length_nil]
      omega
    · rfl

/-- A step of a task brings bytes on by one place, or the task itself. -/
theorem WriterMove.load_le {ev : WriterEvent} (h : WriterMove b s ev b') :
    b'.load w + ev.own.toNat ≤ b.load w := by
  have hone : ev.own.toNat ≤ 1 := Bool.toNat_le _
  cases h with
  | @read buf bs out hw hne hlen hout hclosed =>
    have hpos := List.length_pos_iff.mpr hne
    apply load_le_of_local (s := s) (by simp)
    simp [Endpoint.load, hw, hout, WriterTask.conduit, WriterTask.rank, Nat.mul_add, Nat.add_mul]
    omega
  | readEnd hw | closed hw | failed hw | shutdown hw =>
    apply load_le_of_local (s := s) (by simp)
    simp only [setEnd_ends, setEnd_sock, Pair.get_set, Endpoint.load, hw, WriterTask.conduit,
      WriterTask.rank, Conduit.cut_held, List.length_nil]
    omega
  | @transmit buf n q hw hle hq =>
    have hown : (WriterEvent.transmit n).own.toNat ≤ n := by cases n <;> simp [WriterEvent.own]
    obtain ⟨hheld, hrank⟩ := writer_after hle
    generalize (if n < buf.slice.length then WriterTask.transmit (buf.advance n)
      else .read buf) = t at hheld hrank ⊢
    have hheld' : (b.ends.get s).writer.conduit.held.length = t.conduit.held.length + n := by
      rw [hw]
      exact hheld.symm
    have hrank' : (b.ends.get s).writer.rank = 3 := by rw [hw, WriterTask.rank]
    apply load_le_of_local (s := s) (by simp)
    simp only [setEnd_ends, setEnd_sock, setSock_sock, Pair.get_set, Pair.get_set_other,
      Endpoint.load, hheld', hrank, hrank', hq, List.length_append, List.length_take,
      min_eq_left hle, Nat.mul_add, Nat.add_mul]
    omega
  | drop hw =>
    apply load_le_of_local (s := s) (by simp)
    simp only [setEnd_ends, setEnd_sock, Pair.get_set, dropHalf_load]
    simp only [Endpoint.load, hw, WriterTask.conduit, WriterTask.rank]
    omega

/-- `write_all` writes at least one byte, since it has some and the pipe has room. -/
theorem write_pos {buf : TaskBuf} (hb : b.Wf) (hr : (b.ends.get s).reader = .writeAll buf)
    (h : b.readerStep s .write = some b') :
    (∃ n inp, 0 < n ∧ n ≤ buf.slice.length ∧
      inp.buffer.items = (b.ends.get s).inp.buffer.items ++ buf.slice.take n ∧
      b' = b.setEnd s { b.ends.get s with
        inp := inp
        reader := if n < buf.slice.length then .writeAll (buf.advance n) else .receive buf }) ∨
      b' = b.setEnd s { b.ends.get s with reader := .left } := by
  simp only [readerStep, hr] at h
  split at h
  · simp at h
  · exact .inr (Option.some.inj h).symm
  · rename_i n inp hw
    obtain ⟨hpos, hle⟩ := DuplexPipe.pollWrite_pos ((hb s).writeAll_ne buf hr) hw
    obtain ⟨_, _, hinp⟩ := DuplexPipe.pollWrite_accepted hw
    exact .inl ⟨n, inp, hpos, hle, hinp, (Option.some.inj h).symm⟩

theorem reader_load_le {ev : ReaderEvent} (hb : b.Wf) (h : b.readerStep s ev = some b') :
    b'.load w + ev.own.toNat ≤ b.load w := by
  have hone : ev.own.toNat ≤ 1 := Bool.toNat_le _
  have hmove := readerMove_of_step h
  cases hmove with
  | @receive buf r bs q hr hne hlen hq =>
    have hpos := List.length_pos_iff.mpr hne
    apply load_le_of_local (s := s) (by simp)
    simp [Endpoint.load, hr, hq, ReaderTask.conduit, ReaderTask.rank, Nat.mul_add, Nat.add_mul]
    omega
  | receiveNone hr => simp [ReaderEvent.own]
  | receiveEnd hr | failed hr | shutdown hr =>
    apply load_le_of_local (s := s) (by simp)
    simp only [setEnd_ends, setEnd_sock, Pair.get_set, Endpoint.load, hr, ReaderTask.conduit,
      ReaderTask.rank, Conduit.cut_held, List.length_nil]
    omega
  | write hr | writeBroken hr =>
    obtain ⟨buf, hr⟩ : ∃ buf, (b.ends.get s).reader = .writeAll buf := ⟨_, hr⟩
    rcases write_pos hb hr h with ⟨n, inp, hpos, hle, hinp, heq⟩ | heq
    · obtain ⟨hheld, hrank⟩ := reader_after hle
      rw [heq]
      generalize (if n < buf.slice.length then ReaderTask.writeAll (buf.advance n)
        else .receive buf) = t at hheld hrank ⊢
      have hheld' : (b.ends.get s).reader.conduit.held.length = t.conduit.held.length + n := by
        rw [hr]
        exact hheld.symm
      have hrank' : (b.ends.get s).reader.rank = 3 := by rw [hr, ReaderTask.rank]
      apply load_le_of_local (s := s) (by simp)
      simp only [setEnd_ends, setEnd_sock, Pair.get_set, Endpoint.load, hheld', hrank, hrank',
        hinp, List.length_append, List.length_take, min_eq_left hle, Nat.mul_add, Nat.add_mul]
      omega
    · rw [heq]
      apply load_le_of_local (s := s) (by simp)
      simp only [setEnd_ends, setEnd_sock, Pair.get_set, Endpoint.load, hr, ReaderTask.conduit,
        ReaderTask.rank, Conduit.cut_held, List.length_nil]
      omega
  | drop hr =>
    apply load_le_of_local (s := s) (by simp)
    simp only [setEnd_ends, setEnd_sock, Pair.get_set, dropHalf_load]
    simp only [Endpoint.load, hr, ReaderTask.conduit, ReaderTask.rank, DuplexPipe.close_buffer]
    omega

/-- A poll of the application takes bytes from the end of their way and puts them at its start. -/
theorem AppMove.load_le {op : StreamOp} (h : AppMove b s op b') :
    b'.load w + w s.other * op.taken.length ≤ b.load w + (w s + 4) * op.written.length := by
  rw [load_eq b' w s, load_eq b w s]
  cases h with
  | write happ hne hopen hopen' hout =>
    simp [endLoad, Endpoint.load, hout, StreamOp.taken, StreamOp.written, Nat.mul_add, Nat.add_mul]
    omega
  | read happ hne hinp hclosed =>
    simp [endLoad, Endpoint.load, hinp, StreamOp.taken, StreamOp.written, Nat.mul_add]
    omega
  | writeErr | readEof => simp [StreamOp.taken, StreamOp.written]

theorem drop_load (b : Bridge) (s : Side) : (b.drop s).load w = b.load w := by
  rw [load_eq _ w s, load_eq b w s]
  simp [endLoad, drop, Endpoint.load, Endpoint.drop]

end Load

end Bridge

namespace Link

/-- What a link holds: a byte from end `s` counts `w s` once it can be read, and no more
than four above that before. -/
def load (l : Link) (w : Side → ℕ) : ℕ :=
  match l with
  | plain c =>
    w .left * (c.sock.get .left).items.length + w .right * (c.sock.get .right).items.length
  | tls b => b.load w

variable {l l' : Link} {w : Side → ℕ} {s : Side}

theorem plain_load (c : Connection) (w : Side → ℕ) (s : Side) : (plain c).load w =
    w s * (c.sock.get s).items.length + w s.other * (c.sock.get s.other).items.length := by
  cases s with
  | left => rfl
  | right => exact Nat.add_comm _ _

/-- The tasks of a bridge use up what their link holds. -/
theorem step_load_le {ev : LinkEvent} (h : l.step ev = some l') (hl : l.Wf) :
    l'.load w + ev.own.toNat ≤ l.load w := by
  cases l with
  | plain c =>
    cases ev with
    | sever d n =>
      obtain rfl := Option.some.inj h
      have hle : (((c.sock.get d).truncate n).items).length ≤ (c.sock.get d).items.length := by
        simp
      have hmul := Nat.mul_le_mul_left (w d) hle
      rw [plain_load _ w d, plain_load _ w d]
      simp only [Connection.sever, Pair.get_set, Pair.get_set_other, LinkEvent.own,
        Bool.toNat_false]
      omega
    | writer s ev => simp [step] at h
    | reader s ev => simp [step] at h
  | tls b =>
    cases ev with
    | sever d n => simp [step] at h
    | writer s ev =>
      obtain ⟨b', hb, rfl⟩ := Option.map_eq_some_iff.mp h
      exact (Bridge.writerMove_of_step hb).load_le
    | reader s ev =>
      obtain ⟨b', hb, rfl⟩ := Option.map_eq_some_iff.mp h
      exact Bridge.reader_load_le hl hb

theorem io_load_le {op : StreamOp} (h : l.io s op = some l') :
    l'.load w + w s.other * op.taken.length ≤ l.load w + (w s + 4) * op.written.length := by
  cases ioMove_of_io h with
  | tls hm => exact hm.load_le
  | plain hm =>
    rw [plain_load _ w s, plain_load _ w s]
    cases hm with
    | write hs hl hq =>
      simp [Connection.setSock, hq, StreamOp.taken, StreamOp.written, Nat.mul_add, Nat.add_mul]
      omega
    | read hs hq =>
      simp [Connection.setSock, hq, StreamOp.taken, StreamOp.written, Nat.mul_add]
      omega
    | swallow | writeErr | readEof | readErr => simp [StreamOp.taken]

theorem drop_load (l : Link) (s : Side) : (l.drop s).load w = l.load w := by
  cases l with
  | plain c => rfl
  | tls b => exact Bridge.drop_load b s

end Link

/-! ## ENTG -/

namespace CopyLoop

/-- A byte in the buffer counts `w`. -/
def load (c : CopyLoop) (w : ℕ) : ℕ := w * c.buf.length + (!c.readDone).toNat

/-- A copy loop takes over bytes from a place in front of it, hands them on to one behind it,
or meets the end of its source. -/
theorem step_load_lt {c c' : CopyLoop} {op : CopyOp} {w : ℕ} (h : c.step op = some (c', none)) :
    c'.load w + w * op.written.length <
      c.load w + w * op.taken.length + op.taken.length + op.written.length := by
  unfold step at h
  split at h
  · split_ifs at h with hc
    obtain ⟨rfl, -⟩ := Prod.mk.inj (Option.some.inj h)
    have hpos := List.length_pos_iff.mpr hc.2.2
    simp only [load, hc.1, CopyOp.taken, CopyOp.written, StreamOp.taken, List.length_nil]
    omega
  · split_ifs at h with hc
    obtain ⟨rfl, -⟩ := Prod.mk.inj (Option.some.inj h)
    simp [load, hc.2, CopyOp.taken, CopyOp.written, StreamOp.taken]
  · split_ifs at h
    simp at h
  · rename_i offer n
    split_ifs at h with hc
    obtain ⟨rfl, -⟩ := Prod.mk.inj (Option.some.inj h)
    obtain ⟨_, rfl, hpos, hle⟩ := hc
    obtain ⟨m, hm⟩ := Nat.exists_eq_add_of_le hle
    simp [load, CopyOp.taken, CopyOp.written, StreamOp.written, hm, Nat.mul_add]
    omega
  · split_ifs at h
    simp at h
  · split_ifs at h
    simp at h
  · simp at h

end CopyLoop

namespace Entg

/-- A byte in loop `d` counts `w d`. The loops end with `main`. -/
def load (g : Entg) (w : Side → ℕ) : ℕ :=
  if g.returned = none then
    (g.loops.get .left).load (w .left) + (g.loops.get .right).load (w .right) + 1
  else 0

theorem load_of_running {g : Entg} (h : g.returned = none) (w : Side → ℕ) (d : Side) :
    g.load w = (g.loops.get d).load (w d) + (g.loops.get d.other).load (w d.other) + 1 := by
  rw [load, if_pos h]
  cases d with
  | left => rfl
  | right =>
    rw [Nat.add_comm ((g.loops.get .left).load _)]
    rfl

theorem step_load_lt {g g' : Entg} {w : Side → ℕ} {d : Side} {op : CopyOp}
    (h : g.step (d, op) = some g') :
    g'.load w + w d * op.written.length <
      g.load w + w d * op.taken.length + op.taken.length + op.written.length := by
  obtain ⟨hret, c, r, hc, rfl⟩ := step_eq_some.mp h
  rw [load_of_running hret w d]
  cases r with
  | some x =>
    have hop : op.written = [] := by
      rcases (CopyLoop.step_result hc).2 with hf | ⟨rfl, _⟩
      · unfold CopyOp.fails at hf
        split at hf <;> simp_all [CopyOp.written, StreamOp.written]
      · rfl
    simp only [load, Option.map_some, reduceCtorEq, if_false, hop, List.length_nil]
    omega
  | none =>
    have hlt := CopyLoop.step_load_lt (w := w d) hc
    rw [load_of_running rfl w d]
    simp only [Pair.get_set, Pair.get_set_other]
    omega

end Entg

/-! ## ENTA -/

/-- The bytes of the packets on the wire. -/
def wireLength (ps : List ENPacket) : ℕ := (ps.flatMap frame).length

@[simp] theorem wireLength_nil : wireLength [] = 0 := rfl

@[simp] theorem wireLength_append (ps qs : List ENPacket) :
    wireLength (ps ++ qs) = wireLength ps + wireLength qs := by simp [wireLength]

theorem wireLength_cons (p : ENPacket) (ps : List ENPacket) :
    wireLength (p :: ps) = (frame p).length + wireLength ps := by simp [wireLength]

namespace FrameCodec.FramedRead

/-- The passes left when no byte is at hand. -/
def rank (r : FramedRead) : ℕ :=
  if r.hasErrored then 1 else if r.eof then 2 else r.isReadable.toNat + 3

def load (r : FramedRead) : ℕ := 4 * r.decoder.pending.length + r.rank

/-- What the outcome of a pass leaves. -/
def loadAfter : Polled × FramedRead → ℕ
  | (.again, r) | (.ready (some (.error _)), r) => r.load
  | (.ready (some (.ok p)), r) => 3 * (frame p).length + r.load
  | (.ready none, _) => 0

variable {r : FramedRead} {bs : Bytes}

theorem rank_pos (r : FramedRead) : 0 < r.rank := by
  simp only [rank]
  split_ifs <;> omega

theorem poll_load_lt (hb : r.busy = true) : loadAfter r.poll < r.load := by
  have hpos := rank_pos r
  have hpass := pass_of_poll r
  generalize r.poll = x at hpass
  cases hpass with
  | idle hidle => simp [hidle] at hb
  | errored | drained =>
    simp only [loadAfter, load]
    omega
  | @packet p d hf hr hd =>
    obtain ⟨_, hp⟩ := Decoder.decode_some hd
    have hne := List.length_pos_iff.mpr (frame_ne_nil p)
    simp only [loadAfter, load, hp, List.length_append, rank]
    omega
  | refused hf hr hd =>
    rw [Decoder.decode_error_state hd]
    simp only [loadAfter, load, rank, hf]
    split_ifs <;> simp_all
  | leftover hf hr he hd => simp [loadAfter, load, rank, hf, he, Decoder.decode_none hd]
  | more hf hr he hd => simp [loadAfter, load, rank, hf, hr, he, Decoder.decode_none hd]

theorem afterRead_load_lt (hne : bs ≠ []) (hp : r.Polling) (hb : r.busy = false) :
    loadAfter (r.afterRead bs) < r.load + 6 * bs.length := by
  obtain ⟨he, hf, hr⟩ := flags_of_idle hp hb
  have hpos := List.length_pos_iff.mpr hne
  simp [loadAfter, load, rank, afterRead, hne, he, hf, hr, Decoder.pending_append]
  omega

theorem afterEof_load_lt (hp : r.Polling) (hb : r.busy = false) :
    loadAfter (r.afterRead []) < r.load := by
  obtain ⟨he, hf, hr⟩ := flags_of_idle hp hb
  simp [loadAfter, load, rank, afterRead, he, hf, hr]

theorem failRead_load_lt (hp : r.Polling) (hb : r.busy = false) :
    loadAfter r.failRead < r.load := by
  obtain ⟨he, hf, hr⟩ := flags_of_idle hp hb
  simp [loadAfter, load, rank, failRead, he, hf, hr]

end FrameCodec.FramedRead

def MainState.load : MainState → ℕ
  | run => 1
  | cleanUp | panicked => 0

/-- A task that has returned holds nothing. -/
def Task.load {α ε : Type} (f : α → ℕ) : Task α ε → ℕ
  | running a => f a + 1
  | returned _ => 0

def WithEntg.load (w : WithEntg) : ℕ :=
  23 * w.toEntg.conduit.held.length + 3 * wireLength w.fromEntg.held + w.fromEntg.reader.load

def WithTun.load (v : WithTun) : ℕ :=
  wireLength v.toTun.held + 25 * wireLength v.fromTun.held

namespace Enta

/-- A byte counts 25 when it is captured, 23 when it is sent, 4 when it has been read and 1
in the hand of `to_tun`. -/
def load (e : Enta) : ℕ :=
  e.main.load + e.withEntg.load WithEntg.load + e.withTun.load WithTun.load +
    24 * wireLength e.outbound.items + 2 * wireLength e.inbound.items

variable {codec : TunCodec} {e e' : Enta} {a : EntaAct}

theorem leaveEntg_load_lt {w : WithEntg} (hw : e.withEntg = .running w) (x : EntgExit) :
    (e.leaveEntg x).load < e.load := by
  simp only [load, leaveEntg, hw, Task.load, Fifo.empty_items, wireLength_nil]
  omega

theorem leaveTun_load_lt {v : WithTun} (hv : e.withTun = .running v) (x : TunExit) :
    (e.leaveTun x).load < e.load := by
  simp only [load, leaveTun, hv, Task.load, Fifo.empty_items, wireLength_nil]
  omega

theorem stop_load_lt (hm : e.main = .run) {m : MainState} (hne : m ≠ .run) :
    (e.stop m).load < e.load := by
  have hw : (e.withEntg.cancel .cancelled).load WithEntg.load = 0 := by
    cases e.withEntg <;> rfl
  have hv : (e.withTun.cancel .cancelled).load WithTun.load = 0 := by
    cases e.withTun <;> rfl
  have hmain : m.load < e.main.load := by cases m <;> simp_all [MainState.load]
  simp only [load, stop, hw, hv, Fifo.empty_items, wireLength_nil]
  omega

theorem onPolled_load_lt {t : ToEntg} {r : FramedRead} (hw : e.withEntg = .running ⟨t, .next r⟩)
    {x : Polled × FramedRead} {n : ℕ} (hx : FramedRead.loadAfter x < r.load + n) :
    (e.onPolled t x).load < e.load + n := by
  rcases x with ⟨_ | _ | _ | p, r'⟩
  · simp only [load, onPolled, hw, Task.load, WithEntg.load, FromEntg.held, FromEntg.reader,
      FramedRead.loadAfter] at hx ⊢
    omega
  · exact (leaveEntg_load_lt hw _).trans_le (Nat.le_add_right _ _)
  · simp only [load, onPolled, hw, Task.load, WithEntg.load, FromEntg.held, FromEntg.reader,
      FramedRead.loadAfter] at hx ⊢
    omega
  · simp only [load, onPolled, hw, Task.load, WithEntg.load, FromEntg.held, FromEntg.reader,
      FramedRead.loadAfter, wireLength_cons, wireLength_nil] at hx ⊢
    omega

/-- A write of the sink accepts at least one byte. -/
theorem sendEntg_pos {offer : Bytes} {n : ℕ} (h : e.sendEntg (.write offer n) = some e') :
    0 < n := by
  by_contra hn
  cases hw : e.withEntg with
  | returned x => simp [sendEntg, hw] at h
  | running w =>
    obtain ⟨t, f⟩ := w
    cases t <;> simp [sendEntg, hw, hn] at h

/-- A step of its own takes ENTA on by at least one place, and only a captured packet adds to
what there is to do. -/
theorem step_load_le (he : e.Wf) (h : e.step codec a = some e') :
    e'.load + 22 * a.written.length + a.own.toNat ≤
      e.load + 6 * a.taken.length + 25 * wireLength a.captured := by
  have hone : a.own.toNat ≤ 1 := Bool.toNat_le _
  obtain ⟨hm, hmove⟩ := move_of_step h
  cases hmove with
  | @recvOutbound f p q hw hq hp =>
    have hpos := List.length_pos_iff.mpr (frame_ne_nil p)
    simp [load, hw, hq, Task.load, WithEntg.load, ToEntg.conduit, wireLength_cons,
      EntaAct.written, EntaAct.taken]
    omega
  | refused hw | outboundEnd hw | capturersClosed hw | sendErr hw =>
    have hlt := leaveEntg_load_lt hw
    simp only [EntaAct.written, EntaAct.taken, StreamOp.written, List.length_nil]
    exact Nat.le_add_right_of_le (Nat.le_trans (Nat.add_le_add_left hone _) (hlt _))
  | @sendSome f p buf n hw hn =>
    have hpos : 0 < n := sendEntg_pos (by simpa [step, hm] using h)
    simp [load, hw, Task.load, WithEntg.load, ToEntg.conduit, EntaAct.written, EntaAct.taken,
      StreamOp.written, min_eq_left hn.le]
    omega
  | @sendLast f p buf n hw hn =>
    subst hn
    have hpos := List.length_pos_iff.mpr (he.sending f p buf hw)
    simp [load, hw, Task.load, WithEntg.load, ToEntg.conduit, EntaAct.written, EntaAct.taken,
      StreamOp.written]
    omega
  | pollEntg hw hb =>
    have hlt := onPolled_load_lt (n := 0) hw (FramedRead.poll_load_lt hb)
    simp only [EntaAct.written, EntaAct.taken, List.length_nil]
    omega
  | readSome hw hb hne =>
    have hlt := onPolled_load_lt hw (FramedRead.afterRead_load_lt hne (he.polling _ hw) hb)
    simp only [EntaAct.written, EntaAct.taken, StreamOp.taken, List.length_nil]
    omega
  | readEof hw hb =>
    have hlt := onPolled_load_lt (n := 0) hw (FramedRead.afterEof_load_lt (he.polling _ hw) hb)
    simp only [EntaAct.written, EntaAct.taken, StreamOp.taken, List.length_nil]
    omega
  | readErr hw hb =>
    have hlt := onPolled_load_lt (n := 0) hw (FramedRead.failRead_load_lt (he.polling _ hw) hb)
    simp only [EntaAct.written, EntaAct.taken, StreamOp.taken, List.length_nil]
    omega
  | @putInbound t r p q hw ht hq =>
    have hpos := List.length_pos_iff.mpr (frame_ne_nil p)
    simp [load, hw, hq, Task.load, WithEntg.load, FromEntg.held, FromEntg.reader, wireLength_cons,
      EntaAct.written, EntaAct.taken]
    omega
  | @recvInbound f p q ht hq hp =>
    have hpos := List.length_pos_iff.mpr (frame_ne_nil p)
    simp [load, ht, hq, Task.load, WithTun.load, ToTun.held, wireLength_cons, EntaAct.written,
      EntaAct.taken]
    omega
  | panic ht hq =>
    have hlt := stop_load_lt hm (m := .panicked) (by simp)
    simp only [EntaAct.written, EntaAct.taken, List.length_nil]
    omega
  | ctrlC =>
    have hlt := stop_load_lt hm (m := .cleanUp) (by simp)
    simp only [EntaAct.written, EntaAct.taken, List.length_nil]
    omega
  | inboundEnd ht | outboundClosed ht | tunRefused ht | tunWriteErr ht | pollTun ht | tunEnd ht =>
    have hlt := leaveTun_load_lt ht
    simp only [EntaAct.written, EntaAct.taken, List.length_nil]
    exact Nat.le_add_right_of_le (Nat.le_trans (Nat.add_le_add_left hone _) (hlt _))
  | @tunWrite f p ht =>
    have hpos := List.length_pos_iff.mpr (frame_ne_nil p)
    simp [load, ht, Task.load, WithTun.load, ToTun.held, wireLength_cons, EntaAct.written,
      EntaAct.taken]
    omega
  | @capture t p ht =>
    simp [load, ht, Task.load, WithTun.load, FromTun.held, EntaAct.own, EntaAct.written,
      EntaAct.taken, EntaAct.captured]
    omega
  | tunReadErr ht =>
    simp only [load, ht, Task.load, WithTun.load, FromTun.held, EntaAct.own, EntaAct.written,
      Bool.toNat_false, List.length_nil]
    omega
  | @putOutbound t p q ht hw hq =>
    have hpos := List.length_pos_iff.mpr (frame_ne_nil p)
    simp [load, ht, hq, Task.load, WithTun.load, FromTun.held, wireLength_cons, EntaAct.written,
      EntaAct.taken]
    omega
  | joined hw ht =>
    simp only [load, hm, MainState.load, EntaAct.written, EntaAct.taken, List.length_nil]
    omega

end Enta

/-! ## The tunnel -/

namespace Tunnel

/-- A byte that leaves side `s` counts from 22 to 18 on the outer link, one that arrives there
from 10 to 6. -/
def outerPrice (s d : Side) : ℕ := if d = s then 18 else 6

/-- The loops of the ENTG lie between the outer link and the middle one, where a byte counts
from 16 to 12. -/
def loopPrice (s d : Side) : ℕ := if d = s then 17 else 11

def halfLoad (t : Tunnel) (s : Side) : ℕ :=
  (t.enta.get s).load + (t.outer.get s).load (outerPrice s) + (t.entg.get s).load (loopPrice s)

/-- A bound on the steps that the tunnel can take by itself. -/
def load (t : Tunnel) : ℕ := t.halfLoad .left + t.halfLoad .right + t.middle.load fun _ => 12

/-- The bytes of all frames that were captured so far. -/
def capturedBytes (t : Tunnel) : ℕ :=
  wireLength (t.enta.get .left).log.captured + wireLength (t.enta.get .right).log.captured

variable {codec : TunCodec} {t t' : Tunnel} {s d : Side}

theorem load_eq (t : Tunnel) (s : Side) :
    t.load = t.halfLoad s + t.halfLoad s.other + t.middle.load fun _ => 12 := by
  cases s with
  | left => rfl
  | right =>
    rw [load, Nat.add_comm (t.halfLoad .left)]
    rfl

theorem capturedBytes_eq (t : Tunnel) (s : Side) : t.capturedBytes =
    wireLength (t.enta.get s).log.captured + wireLength (t.enta.get s.other).log.captured := by
  cases s with
  | left => rfl
  | right => exact Nat.add_comm _ _

theorem enta_load_le {a : EntaAct} (ht : t.Wf) (h : t.entaStep codec s a = some t') :
    t'.load + a.own.toNat + 25 * t.capturedBytes ≤ t.load + 25 * t'.capturedBytes := by
  simp only [entaStep, Option.bind_eq_some_iff, Option.map_eq_some_iff] at h
  obtain ⟨e', he, l', hl, rfl⟩ := h
  have hle := Enta.step_load_le (ht.enta s) he
  obtain ⟨_, hmove⟩ := Enta.move_of_step he
  have hio : l'.load (outerPrice s) + 6 * a.taken.length ≤
      (t.outer.get s).load (outerPrice s) + 22 * a.written.length := by
    cases hop : a.op with
    | none =>
      obtain ⟨hw, ht⟩ := hmove.no_bytes hop
      simp only [hop] at hl
      obtain rfl := Option.some.inj hl
      simp [hw, ht]
    | some op =>
      obtain ⟨hw, ht⟩ := hmove.op_bytes hop
      simp only [hop] at hl
      rw [← hw, ← ht]
      simpa [outerPrice] using Link.io_load_le (w := outerPrice s) hl
  have hrel : (released (t.enta.get s) e' l' s).load (outerPrice s) = l'.load (outerPrice s) := by
    simp only [released]
    split
    · exact Link.drop_load l' s
    · rfl
  rw [load_eq _ s, load_eq t s, capturedBytes_eq t s, capturedBytes_eq _ s]
  simp only [halfLoad, Pair.get_set, Pair.get_set_other, hrel, hmove.captured_eq,
    wireLength_append]
  omega

theorem entgDrop_load (t : Tunnel) (s : Side) : (t.entgDrop s).load = t.load := by
  rw [load_eq _ s, load_eq t s]
  simp [entgDrop, halfLoad, Link.drop_load]

theorem outerIo_load_le {e : Side} {op : StreamOp} (h : t.outerIo s e op = some t') :
    t'.load + outerPrice s e.other * op.taken.length ≤
      t.load + (outerPrice s e + 4) * op.written.length := by
  simp only [outerIo, Option.map_eq_some_iff] at h
  obtain ⟨l, hl, rfl⟩ := h
  have hle := Link.io_load_le (w := outerPrice s) hl
  rw [load_eq _ s, load_eq t s]
  simp only [halfLoad, Pair.get_set, Pair.get_set_other]
  omega

theorem middleIo_load_le {e : Side} {op : StreamOp} (h : t.middleIo e op = some t') :
    t'.load + 12 * op.taken.length ≤ t.load + 16 * op.written.length := by
  simp only [middleIo, Option.map_eq_some_iff] at h
  obtain ⟨l, hl, rfl⟩ := h
  have hle := Link.io_load_le (w := fun _ => 12) hl
  simp only [load, halfLoad]
  omega

/-- A copy loop takes its bytes from the link in front of it and puts them into the one
behind it. -/
theorem entgIo_load_le {c : CopyLoop} {op : CopyOp} (hc : (c.step op).isSome = true)
    (h : t.entgIo s d op = some t') :
    t'.load + (loopPrice s d + 1) * op.taken.length + op.written.length ≤
      t.load + loopPrice s d * op.written.length := by
  cases op with
  | finish =>
    obtain rfl := Option.some.inj h
    simp [CopyOp.taken, CopyOp.written]
  | source op =>
    have hw := CopyLoop.step_poll.1 hc
    simp only [entgIo] at h
    rcases Side.eq_or_eq_other d s with rfl | rfl
    · rw [if_pos rfl] at h
      have hle := outerIo_load_le h
      simp only [outerPrice, loopPrice, Side.other_other, if_true, hw, CopyOp.taken,
        CopyOp.written, List.length_nil] at hle ⊢
      omega
    · rw [if_neg (Side.other_ne s)] at h
      have hle := middleIo_load_le h
      simp only [loopPrice, if_neg (Side.other_ne s), hw, CopyOp.taken, CopyOp.written,
        List.length_nil] at hle ⊢
      omega
  | sink op =>
    have ht := CopyLoop.step_poll.2 hc
    simp only [entgIo] at h
    rcases Side.eq_or_eq_other d s with rfl | rfl
    · rw [if_pos rfl] at h
      have hle := middleIo_load_le h
      simp only [loopPrice, if_true, ht, CopyOp.taken, CopyOp.written, List.length_nil] at hle ⊢
      omega
    · rw [if_neg (Side.other_ne s)] at h
      have hle := outerIo_load_le h
      simp only [outerPrice, loopPrice, if_neg (Side.other_ne s), ht, CopyOp.taken,
        CopyOp.written, List.length_nil] at hle ⊢
      omega

theorem setEntg_load (t : Tunnel) (s : Side) (g : Entg) :
    load { t with entg := t.entg.set s g } + (t.entg.get s).load (loopPrice s) =
      t.load + g.load (loopPrice s) := by
  rw [load_eq _ s, load_eq t s]
  simp only [halfLoad, Pair.get_set, Pair.get_set_other]
  omega

theorem entg_load_lt {op : CopyOp} (h : t.entgStep s d op = some t') :
    t'.load < t.load ∧ t'.enta = t.enta := by
  obtain ⟨g, u, hg, hu, rfl⟩ := entgStep_eq_some h
  obtain ⟨_, c, r, hc, _⟩ := Entg.step_eq_some.mp hg
  have hlt := Entg.step_load_lt (w := loopPrice s) hg
  have hio := entgIo_load_le (Option.isSome_iff_exists.mpr ⟨_, hc⟩) hu
  set v := if g.returned = none then u else u.entgDrop s with hv
  have hventg : v.entg = t.entg := by
    rw [hv, ← (entgIo_frame hu).2.1]
    split <;> rfl
  have hvload : v.load = u.load := by
    rw [hv]
    split
    · rfl
    · exact entgDrop_load u s
  have hset := setEntg_load v s g
  rw [hventg] at hset
  rw [Nat.add_mul] at hio
  have hventa : v.enta = t.enta := by
    rw [hv, ← (entgIo_frame hu).1]
    split <;> rfl
  refine ⟨?_, hventa⟩
  show load { v with entg := t.entg.set s g } < t.load
  omega

/-- Every step that the tunnel takes by itself uses up some of the load, and only captured
packets add to it. -/
theorem step_load_le {a : TunnelAct} (ht : t.Wf) (h : t.step codec a = some t') :
    t'.load + a.own.toNat + 25 * t.capturedBytes ≤ t.load + 25 * t'.capturedBytes := by
  cases a with
  | enta s a => exact enta_load_le ht h
  | entg s d op =>
    obtain ⟨hlt, henta⟩ := entg_load_lt h
    simp only [TunnelAct.own, Bool.toNat_true, capturedBytes, henta]
    omega
  | outer s ev =>
    simp only [step, Option.map_eq_some_iff] at h
    obtain ⟨l, hl, rfl⟩ := h
    have hle := Link.step_load_le (w := outerPrice s) hl (ht.outer s)
    rw [load_eq _ s, load_eq t s]
    simp only [halfLoad, Pair.get_set, Pair.get_set_other, TunnelAct.own, capturedBytes]
    omega
  | middle ev =>
    simp only [step, Option.map_eq_some_iff] at h
    obtain ⟨l, hl, rfl⟩ := h
    have hle := Link.step_load_le (w := fun _ => 12) hl ht.middle
    simp only [load, halfLoad, TunnelAct.own, capturedBytes]
    omega

/-- What the tunnel does by itself captures nothing. -/
theorem captured_of_own {a : TunnelAct} (hown : a.own = true) (h : t.step codec a = some t')
    (s : Side) : (t'.enta.get s).log.captured = (t.enta.get s).log.captured := by
  rcases enta_step h s with heq | ⟨b, rfl, hmove⟩
  · rw [heq]
  · rw [hmove.captured_eq]
    cases b <;> simp [TunnelAct.own, EntaAct.own, EntaAct.captured] at hown ⊢

theorem new_load_le {outer : Pair Link} {middle : Link} (h : Start outer middle) :
    (new outer middle).load ≤ 54 := by
  have hlink : ∀ (l : Link) w, l.Fresh → l.load w ≤ 12 := by
    rintro l w ⟨cap, hcap, rfl | rfl⟩
    · simp [Link.load, Connection.new]
    · simp [Link.load, Bridge.load, Bridge.endLoad, Bridge.new, Bridge.Endpoint.new,
        Bridge.Endpoint.load, DuplexPipe.new, Bridge.WriterTask.conduit, Bridge.WriterTask.rank,
        Bridge.ReaderTask.conduit, Bridge.ReaderTask.rank]
  have hhalf : ∀ s, (new outer middle).halfLoad s ≤ 21 := by
    intro s
    have hl := hlink _ (outerPrice s) (h.outer s)
    have henta : Enta.new.load = 6 := rfl
    have hentg : Entg.new.load (loopPrice s) = 3 := by
      simp [Entg.load, Entg.new, CopyLoop.load, CopyLoop.new]
    simp only [halfLoad, new, Pair.get_both, henta, hentg]
    omega
  have hleft := hhalf .left
  have hright := hhalf .right
  have hmiddle := hlink _ (fun _ => 12) h.middle
  simp only [load]
  have heq : (new outer middle).middle = middle := rfl
  rw [heq]
  omega

theorem countP_own_le {outer : Pair Link} {middle : Link} {as : List TunnelAct} {t : Tunnel}
    (h : Start outer middle) (hrun : run (step codec) (new outer middle) as = some t) :
    as.countP TunnelAct.own ≤ 25 * t.capturedBytes + 54 := by
  have hle := Run.countP_le_of_credit (I := Wf) (p := TunnelAct.own) (μ := load)
    (γ := fun t => 25 * t.capturedBytes)
    (fun s a t hs hstep => ⟨step_wf hs hstep, step_load_le hs hstep⟩) (new_wf h) hrun
  have hnew := new_load_le h
  omega

theorem Wf.exists_resting {t : Tunnel} (ht : t.Wf) :
    ∃ bs u, (∀ b ∈ bs, b.own = true) ∧ run (step codec) t bs = some u ∧ u.Resting codec := by
  refine Run.exists_quiescent (I := Wf) load (fun s a t hs hown hstep => ?_) ht
  have hle := step_load_le hs hstep
  have hcap := captured_of_own hown hstep
  simp only [capturedBytes, hcap, hown, Bool.toNat_true] at hle
  exact ⟨step_wf hs hstep, by omega⟩

/-- Left alone, the tunnel comes to rest. In every run, whatever is cut, fails or stops on the
way and in whatever order, it takes no more than 25 steps by itself for each captured byte and
54 besides; and from every state that it can reach, steps of its own lead to one where none
is left. The calls of rats-tls that fail or move no byte are not among these steps. -/
theorem comes_to_rest {outer : Pair Link} {middle : Link} {as : List TunnelAct} {t : Tunnel}
    (h : Start outer middle) (hrun : run (step codec) (new outer middle) as = some t) :
    as.countP TunnelAct.own ≤ 25 * t.capturedBytes + 54 ∧
      ∃ bs u, (∀ b ∈ bs, b.own = true) ∧ run (step codec) t bs = some u ∧ u.Resting codec :=
  ⟨countP_own_le h hrun, (wf_of_run h hrun).exists_resting⟩

theorem busyRun_comes_to_rest :
    ∃ t, run (step ipCodec) (new ⟨tinyBridge, smallLink⟩ smallLink) busyRun = some t ∧
      busyRun.countP TunnelAct.own ≤ 25 * t.capturedBytes + 54 ∧
      ∃ bs u, (∀ b ∈ bs, b.own = true) ∧ run (step ipCodec) t bs = some u ∧ u.Resting ipCodec := by
  obtain ⟨t, ht, _⟩ := Run.exists_of_any (step ipCodec)
    (new ⟨tinyBridge, smallLink⟩ smallLink) busyRun (fun _ => True) (by decide +kernel)
  exact ⟨t, ht, comes_to_rest tinyBridge_start ht⟩

end Tunnel

end EnclaveNetworkGateway
